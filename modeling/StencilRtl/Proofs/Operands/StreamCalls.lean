import StencilRtl.Kernel.Builder
import StencilRtl.Proofs.Operands.Spelling

/-!
# Spelled Stream Operations

The operands of the four operations on streams, and what they are read as.

The format of each operation is given as a relation between operands and a call, without the
reading. In the format of a dispatch the numbers of dimensions and of consumers are operands
themselves: the first of them says how many sides every box has, so one operand too many or too
few would shift all that follows. That it does not go unnoticed is the second half of the
statement. Where a call is cut, the first operand missing is reported, and what stands behind
a whole call is reported as left over.

The other operations are not of this kind. A read may be followed by the name of a consumer, and
the extents of an image go on as long as there are operands.

A dispatch gives way if it announces more consumers than any memory has room for. A list of
operands for so many consumers would need that room too, so this is no restriction on calls.

## Main definitions

* `ReadStream.Spelled`, `WriteStream.Spelled`, `LineBufferCall.Spelled`,
  `DispatchCall.Spelled`: The operands of each operation.
* `Stmt.AsksFor`: A statement evaluates an operation that is read as a call.
* `DispatchCall.InRange`: Dimensions and targets that a call can have.

## Theorems

* `DispatchCall.decodesCall`: A dispatch is read from exactly the operands that spell it.
* `DispatchCall.asksFor_dispatchStream`: A statement that was put together is read back.
* `streamOperations_read`: All four operations.
-/

namespace StencilRtl

open Operands

namespace ReadStream

/-- Two buffers, and behind them the consumer if there are several. -/
inductive Spelled : List Expr → ReadStream → Prop
  | whole {s t : Expr} {stream stencil : String} (hstream : s.Names stream)
      (hstencil : t.Names stencil) : Spelled [s, t] ⟨printName stream, printName stencil⟩
  | part {s t : Expr} {stream stencil : String} (consumer : String) (hstream : s.Names stream)
      (hstencil : t.Names stencil) : Spelled [s, t, .textImm consumer]
        ⟨printName stream ++ "_to_" ++ printName consumer, printName stencil⟩

/-- What stands behind the two buffers. -/
theorem accepts_part (stream stencil : String) :
    Accepts (do
        let part ←
          if 0 < (← remaining) then do
            let consumer ← text
            pure (consumerStream (printName stream) (printName consumer))
          else pure (printName stream)
        finish
        return (⟨part, printName stencil⟩ : ReadStream))
      fun operands call => operands = [] ∧ call = ⟨printName stream, printName stencil⟩
        ∨ ∃ consumer, operands = [.textImm consumer]
          ∧ call = ⟨printName stream ++ "_to_" ++ printName consumer, printName stencil⟩ := by
  rintro ⟨call, position, rest⟩ b
  cases rest with
  | nil =>
      refine ⟨fun ⟨_, h⟩ => .inl ⟨rfl, (Prod.mk.inj (Except.ok.inj h)).1.symm⟩, ?_⟩
      rintro (⟨_, rfl⟩ | ⟨_, h, _⟩)
      · exact ⟨_, rfl⟩
      · exact absurd h (by simp)
  | cons e rest =>
      -- An operand is left, so it has to be the name of a consumer and the last one.
      have hpart := Accepts.bind decodes_text fun consumer => (closes_finish
        (⟨consumerStream (printName stream) (printName consumer), printName stencil⟩ :
          ReadStream)).accepts
      refine Iff.trans (hpart ⟨call, position, e :: rest⟩ b) ?_
      simp only [followed_one]
      constructor
      · rintro ⟨_, consumer, _, heq, rfl, rfl, rfl⟩
        exact .inr ⟨consumer, heq, rfl⟩
      · rintro (⟨h, _⟩ | ⟨consumer, heq, rfl⟩)
        · exact absurd h (by simp)
        · exact ⟨_, consumer, [], heq, rfl, rfl, rfl⟩

theorem ofArgs_iff {args : List Expr} {call : ReadStream} :
    ofArgs args = .ok call ↔ Spelled args call := by
  have haccepts := Accepts.bind decodes_buffer fun stream => .bind decodes_buffer fun stencil =>
    accepts_part stream stencil
  refine Iff.trans haccepts.read ?_
  simp only [followed_one]
  constructor
  · rintro ⟨s, stream, _, rfl, hstream, t, stencil, _, rfl, hstencil,
      ⟨rfl, rfl⟩ | ⟨consumer, rfl, rfl⟩⟩
    · exact .whole hstream hstencil
    · exact .part consumer hstream hstencil
  · rintro (⟨hstream, hstencil⟩ | ⟨consumer, hstream, hstencil⟩)
    · exact ⟨_, _, _, rfl, hstream, _, _, _, rfl, hstencil, .inl ⟨rfl, rfl⟩⟩
    · exact ⟨_, _, _, rfl, hstream, _, _, _, rfl, hstencil, .inr ⟨consumer, rfl, rfl⟩⟩

end ReadStream

namespace WriteStream

/-- A loop and its largest value, which tell the extent of a dimension. -/
def SpellsExtent (operands : List Expr) (extent : Nat) : Prop :=
  ∃ name e most, operands = [.textImm name, e] ∧ e.Counts most ∧ extent = most + 1

/-- Two buffers, and behind them the loops of an image. -/
inductive Spelled : List Expr → WriteStream → Prop
  | mk {s t : Expr} {stream stencil : String} {loops : List (List Expr)} {extents : List Nat}
      (hstream : s.Names stream) (hstencil : t.Names stencil)
      (hextents : List.Forall₂ SpellsExtent loops extents) :
      Spelled (s :: t :: loops.flatten) ⟨printName stream, printName stencil,
        printName (rootName stream), if extents = [] then none else some extents⟩

theorem decodes_loopExtent : Decodes loopExtent SpellsExtent := by
  refine (decodes_text.bind fun name => (decodes_atLeast 0).bind fun most =>
    decodes_pure (most + 1)).of_iff fun operands extent => ?_
  simp only [followed_one]
  constructor
  · rintro ⟨name, e, most, rfl, hmost, rfl⟩
    exact ⟨_, name, _, rfl, rfl, e, most, _, rfl, ⟨hmost, Nat.zero_le _⟩, rfl, rfl⟩
  · rintro ⟨_, name, _, rfl, rfl, e, most, _, rfl, hmost, rfl, rfl⟩
    exact ⟨name, e, most, rfl, hmost.1, rfl⟩

theorem not_spellsExtent_nil (extent : Nat) : ¬ SpellsExtent [] extent := by
  rintro ⟨_, _, _, h, _⟩
  exact absurd h (by simp)

theorem ofArgs_iff {args : List Expr} {call : WriteStream} :
    ofArgs args = .ok call ↔ Spelled args call := by
  have haccepts := Accepts.bind decodes_buffer fun stream => .bind decodes_buffer fun stencil =>
    (accepts_toEnd decodes_loopExtent not_spellsExtent_nil).then_pure fun extents =>
      (⟨printName stream, printName stencil, printName (rootName stream),
        if extents = [] then none else some extents⟩ : WriteStream)
  refine Iff.trans haccepts.read ?_
  simp only [followed_one]
  constructor
  · rintro ⟨s, stream, _, rfl, hstream, t, stencil, _, rfl, hstencil, extents,
      ⟨loops, hextents, rfl⟩, rfl⟩
    exact .mk hstream hstencil hextents
  · rintro ⟨hstream, hstencil, hextents⟩
    exact ⟨_, _, _, rfl, hstream, _, _, _, rfl, hstencil, _, ⟨_, hextents, rfl⟩, rfl⟩

end WriteStream

namespace LineBufferCall

/-- Two buffers, and behind them the extents of an image. -/
inductive Spelled : List Expr → LineBufferCall → Prop
  | mk {s t : Expr} {input output : String} {es : List Expr} {extents : List Nat}
      (hinput : s.Names input) (houtput : t.Names output) (hsome : extents ≠ [])
      (hextents : List.Forall₂ (fun e extent => e.Counts extent ∧ 1 ≤ extent) es extents) :
      Spelled (s :: t :: es) ⟨printName input, printName output, extents⟩

/-- The extents of an image, of which there is at least one. -/
theorem accepts_extents (input output : String) :
    Accepts (do
        let storeExtents ← toEnd (atLeast 1)
        if storeExtents = [] then unsupported (.malformedCall callName .noStoreExtents)
        return (⟨printName input, printName output, storeExtents⟩ : LineBufferCall))
      fun operands call => ∃ extents, extents ≠ [] ∧
        List.Forall₂ (fun e extent => e.Counts extent ∧ 1 ≤ extent) operands extents ∧
          call = ⟨printName input, printName output, extents⟩ := by
  -- An extent takes an operand, so reading to the end comes to an end.
  have hsome : ∀ extent : Nat, ¬ ∃ e, ([] : List Expr) = [e] ∧ e.Counts extent ∧ 1 ≤ extent := by
    rintro _ ⟨_, h, _⟩
    exact absurd h (by simp)
  refine ((accepts_toEnd (decodes_atLeast 1) hsome).then (P := fun extents call =>
    extents ≠ [] ∧ call = ⟨printName input, printName output, extents⟩) ?_).of_iff ?_
  · intro extents o call
    by_cases hnil : extents = []
    · simp only [hnil, if_true]
      constructor
      · rintro ⟨_, h⟩
        rcases bind_ok.mp h with ⟨_, _, hfault, _⟩
        exact absurd (lift_ok.mp hfault).1 (by simp [unsupported])
      · exact fun h => absurd rfl h.1
    · simp only [hnil, if_false]
      constructor
      · rintro ⟨_, h⟩
        exact ⟨hnil, (pure_ok.mp h).1⟩
      · exact fun h => ⟨o, pure_ok.mpr ⟨h.2, rfl⟩⟩
  · intro operands call
    simp only [forall₂_singletons]
    constructor
    · rintro ⟨extents, hnonempty, hextents, rfl⟩
      exact ⟨extents, hextents, hnonempty, rfl⟩
    · rintro ⟨extents, hextents, hnonempty, rfl⟩
      exact ⟨extents, hnonempty, hextents, rfl⟩

theorem ofArgs_iff {args : List Expr} {call : LineBufferCall} :
    ofArgs args = .ok call ↔ Spelled args call := by
  have haccepts := Accepts.bind decodes_buffer fun input => .bind decodes_buffer fun output =>
    accepts_extents input output
  refine Iff.trans haccepts.read ?_
  simp only [followed_one]
  constructor
  · rintro ⟨s, input, _, rfl, hinput, t, output, _, rfl, houtput, extents, hsome, hextents, rfl⟩
    exact .mk hinput houtput hsome hextents
  · rintro ⟨hinput, houtput, hsome, hextents⟩
    exact ⟨_, _, _, rfl, hinput, _, _, _, rfl, houtput, _, hsome, hextents, rfl⟩

end LineBufferCall

namespace DispatchCall

/-- Size, step and store extent of a dimension. -/
def SpellsDimension (operands : List Expr) (d : Nat × Nat × Nat) : Prop :=
  ∃ size step store, operands = [size, step, store] ∧ (size.Counts d.1 ∧ 1 ≤ d.1)
    ∧ (step.Counts d.2.1 ∧ 1 ≤ d.2.1) ∧ store.Counts d.2.2 ∧ 1 ≤ d.2.2

/-- Offset and extent of a box in a dimension. -/
def SpellsSide (operands : List Expr) (side : Nat × Nat) : Prop :=
  ∃ offset extent, operands = [offset, extent] ∧ offset.Counts side.1
    ∧ extent.Counts side.2 ∧ 1 ≤ side.2

/-- The name of a consumer, the depth of its queue, and a side of its box for each of `rank`
    dimensions. -/
inductive SpellsConsumer (rank : Nat) : List Expr → DispatchBox → Prop
  | mk {e : Expr} {depth : Nat} {groups : List (List Expr)} {sides : List (Nat × Nat)}
      (name : String) (hdepth : e.Counts depth) (hsides : List.Forall₂ SpellsSide groups sides)
      (hrank : sides.length = rank) :
      SpellsConsumer rank (.textImm name :: e :: groups.flatten)
        ⟨printName name, depth, sides.map Prod.fst, sides.map Prod.snd⟩

/-- A buffer, the number of dimensions and the dimensions, the number of consumers and the
    consumers. -/
inductive Spelled : List Expr → DispatchCall → Prop
  | mk {s rank count : Expr} {stream : String} {groups members : List (List Expr)}
      {dimensions : List (Nat × Nat × Nat)} {consumers : List DispatchBox}
      (hstream : s.Names stream) (hrank : rank.Counts dimensions.length ∧ 1 ≤ dimensions.length)
      (hdimensions : List.Forall₂ SpellsDimension groups dimensions)
      (hcount : count.Counts consumers.length ∧ 1 ≤ consumers.length)
      (hconsumers : List.Forall₂ (SpellsConsumer dimensions.length) members consumers) :
      Spelled (s :: rank :: (groups.flatten ++ count :: members.flatten)) ⟨printName stream,
        ⟨dimensions.map (·.1), dimensions.map (·.2.1), dimensions.map (·.2.2), consumers⟩⟩

theorem decodes_dimension : Decodes dimension SpellsDimension := by
  refine ((decodes_atLeast 1).bind fun size => (decodes_atLeast 1).bind fun step =>
    (decodes_atLeast 1).bind fun store => decodes_pure (size, step, store)).of_iff
      fun operands d => ?_
  simp only [followed_one]
  constructor
  · rintro ⟨e, e', e'', rfl, hsize, hstep, hstore⟩
    exact ⟨e, _, _, rfl, hsize, e', _, _, rfl, hstep, e'', _, _, rfl, hstore, rfl, rfl⟩
  · rintro ⟨e, size, _, rfl, hsize, e', step, _, rfl, hstep, e'', store, _, rfl, hstore, rfl, rfl⟩
    exact ⟨e, e', e'', rfl, hsize, hstep, hstore⟩

theorem decodes_boxDimension : Decodes boxDimension SpellsSide := by
  refine ((decodes_atLeast 0).bind fun offset => (decodes_atLeast 1).bind fun extent =>
    decodes_pure (offset, extent)).of_iff fun operands side => ?_
  simp only [followed_one]
  constructor
  · rintro ⟨e, e', rfl, hoffset, hextent⟩
    exact ⟨e, _, _, rfl, ⟨hoffset, Nat.zero_le _⟩, e', _, _, rfl, hextent, rfl, rfl⟩
  · rintro ⟨e, offset, _, rfl, hoffset, e', extent, _, rfl, hextent, rfl, rfl⟩
    exact ⟨e, e', rfl, hoffset.1, hextent⟩

theorem decodes_consumer (rank : Nat) : Decodes (consumer rank) (SpellsConsumer rank) := by
  refine (decodes_text.bind fun name => (decodes_atLeast 0).bind fun depth =>
    (decodes_boxDimension.times rank).bind fun box =>
      decodes_pure (⟨printName name, depth, box.map Prod.fst, box.map Prod.snd⟩ :
        DispatchBox)).of_iff fun operands box => ?_
  simp only [followed_one]
  constructor
  · rintro ⟨name, hdepth, hsides, hrank⟩
    exact ⟨_, name, _, rfl, rfl, _, _, _, rfl, ⟨hdepth, Nat.zero_le _⟩,
      _, _, [], ⟨_, hsides, rfl, hrank⟩, ⟨rfl, rfl⟩, (List.append_nil _).symm⟩
  · rintro ⟨_, name, _, rfl, rfl, e, depth, _, rfl, hdepth, sides, _, _,
      ⟨groups, hsides, rfl, hrank⟩, ⟨rfl, rfl⟩, rfl⟩
    rw [List.append_nil]
    exact .mk name hdepth.1 hsides hrank

/-- A call is read just if it is spelled and has no more consumers than there is room for. -/
theorem decodesCall : DecodesCall callName ofArgs fun operands call =>
    Spelled operands call ∧ call.plan.consumers.length ≤ mostConsumers := by
  refine Closes.decodesCall ((Closes.bind decodes_buffer fun stream =>
    .bind (decodes_atLeast 1) fun rank => .bind (decodes_dimension.times rank) fun dimensions =>
      .bind (decodes_atLeast 1) fun count => .unless ?_
        (.bind ((decodes_consumer rank).times count) fun consumers =>
          closes_finish _)).of_iff fun operands call => ?_) callName
  -- More consumers than there is room for make the reading give way, so it does not return.
  · intro o r h
    rcases bind_ok.mp h with ⟨_, _, hfault, _⟩
    exact absurd (lift_ok.mp hfault).1 (by simp [giveWay])
  · simp only [followed_one, Nat.not_lt]
    constructor
    · rintro ⟨⟨hstream, hrank, hdimensions, hcount, hconsumers⟩, hroom⟩
      exact ⟨_, _, _, rfl, hstream, _, _, _, rfl, hrank, _, _, _, ⟨_, hdimensions, rfl, rfl⟩,
        ⟨_, _, _, rfl, hcount, hroom, _, _, [], ⟨_, hconsumers, rfl, rfl⟩, ⟨rfl, rfl⟩,
          (List.append_nil _).symm⟩, rfl⟩
    · rintro ⟨s, stream, _, rfl, hstream, e, rank, _, rfl, hrank, dimensions, _, _,
        ⟨groups, hdimensions, rfl, rfl⟩, ⟨e', count, _, rfl, hcount, hroom, consumers, _, _,
          ⟨members, hconsumers, rfl, rfl⟩, ⟨rfl, rfl⟩, rfl⟩, rfl⟩
      rw [List.append_nil]
      exact ⟨.mk hstream hrank hdimensions hcount hconsumers, hroom⟩

end DispatchCall

/-! ### Calls that are put together -/

/-- The operation a statement evaluates, with its operands. -/
def Stmt.operation? : Stmt → Option (String × List Expr)
  | .evaluate (.call _ name args _) => some (name, args)
  | _ => none

/-- A statement evaluates an operation whose operands are read as `call`. -/
def Stmt.AsksFor {α : Type} (s : Stmt) (name : String) (decode : List Expr → Fallible α)
    (call : α) : Prop :=
  ∃ operands, s.operation? = some (name, operands) ∧ decode operands = .ok call

theorem Expr.names_buffer (name : String) : (Expr.buffer name).Names name := ⟨_, rfl⟩

theorem Expr.counts_ofInt {value : Int64} (h : 0 ≤ value.toInt) :
    (Expr.ofInt value).Counts value.toInt.toNat :=
  .inl ⟨_, _, rfl, (Int.toNat_of_nonneg h).symm⟩

theorem Expr.counts_ofInt_pos {value : Int64} (h : 1 ≤ value.toInt) :
    (Expr.ofInt value).Counts value.toInt.toNat ∧ 1 ≤ value.toInt.toNat :=
  ⟨counts_ofInt (by omega), by omega⟩

theorem Expr.counts_length {n : Nat} (h : n < 2 ^ 63) :
    (Expr.ofInt (Int64.ofInt n)).Counts n := by
  refine .inl ⟨_, _, rfl, Int64.toInt_ofInt_of_le ?_ ?_⟩
  · omega
  · omega

/-- Groups of `k` operands or more have `k` times as many operands or more. -/
theorem length_flatten_of_forall₂ {α : Type} {R : List Expr → α → Prop} {k : Nat}
    (hR : ∀ group a, R group a → k ≤ group.length) {groups : List (List Expr)} {as : List α}
    (h : List.Forall₂ R groups as) : k * as.length ≤ groups.flatten.length := by
  induction h with
  | nil => exact Nat.zero_le _
  | cons hfirst _ ih =>
      have hlength := hR _ _ hfirst
      rw [List.length_cons, List.flatten_cons, List.length_append, Nat.mul_add]
      omega

/-- What is spelled item by item is spelled as a list. -/
theorem forall₂_maps {α β γ : Type} {R : β → γ → Prop} {f : α → β} {g : α → γ} {xs : List α}
    (h : ∀ x ∈ xs, R (f x) (g x)) : List.Forall₂ R (xs.map f) (xs.map g) := by
  rw [List.forall₂_map_left_iff, List.forall₂_map_right_iff, List.forall₂_same]
  exact h

namespace ReadStream

/-- What a read asks for, on its own or as one of several consumers. -/
def ofConsumer (stream stencil : String) : Option String → ReadStream
  | none => ⟨printName stream, printName stencil⟩
  | some consumer => ⟨printName stream ++ "_to_" ++ printName consumer, printName stencil⟩

theorem asksFor_readStream (stream stencil : String) (consumer : Option String) :
    (Stmt.readStream stream stencil consumer).AsksFor callName ofArgs
      (ofConsumer stream stencil consumer) := by
  refine ⟨_, rfl, ofArgs_iff.mpr ?_⟩
  cases consumer with
  | none => exact .whole (Expr.names_buffer stream) (Expr.names_buffer stencil)
  | some consumer => exact .part consumer (Expr.names_buffer stream) (Expr.names_buffer stencil)

end ReadStream

namespace WriteStream

/-- What a write asks for, to a kernel output if there are loops. -/
def ofLoops (stream stencil : String) (loops : List (String × Int64)) : WriteStream :=
  ⟨printName stream, printName stencil, printName (rootName stream),
    if loops = [] then none else some (loops.map fun l => l.2.toInt.toNat + 1)⟩

theorem asksFor_writeStream (stream stencil : String) {loops : List (String × Int64)}
    (h : ∀ l ∈ loops, 0 ≤ l.2.toInt) :
    (Stmt.writeStream stream stencil loops).AsksFor callName ofArgs
      (ofLoops stream stencil loops) := by
  have hextents : List.Forall₂ SpellsExtent
      (loops.map fun l => [Expr.textImm l.1, .ofInt l.2])
      (loops.map fun l => l.2.toInt.toNat + 1) :=
    forall₂_maps fun l hl => ⟨_, _, _, rfl, Expr.counts_ofInt (h l hl), rfl⟩
  have hspelled := Spelled.mk (Expr.names_buffer stream) (Expr.names_buffer stencil) hextents
  simp only [List.map_eq_nil_iff] at hspelled
  exact ⟨_, rfl, ofArgs_iff.mpr hspelled⟩

end WriteStream

theorem LineBufferCall.asksFor_lineBuffer (input output : String) {extents : List Int64}
    (hsome : extents ≠ []) (h : ∀ e ∈ extents, 1 ≤ e.toInt) :
    (Stmt.lineBuffer input output extents).AsksFor callName ofArgs
      ⟨printName input, printName output, extents.map fun e => e.toInt.toNat⟩ :=
  ⟨_, rfl, ofArgs_iff.mpr (.mk (Expr.names_buffer input) (Expr.names_buffer output)
    (List.map_eq_nil_iff.not.mpr hsome) (forall₂_maps fun e he => Expr.counts_ofInt_pos (h e he)))⟩

namespace DispatchCall

/-- What a dimension asks for. -/
def extentsOf (d : DispatchDimension) : Nat × Nat × Nat :=
  (d.size.toInt.toNat, d.step.toInt.toNat, d.storeExtent.toInt.toNat)

/-- What a target asks for. -/
def boxOf (t : DispatchTarget) : DispatchBox :=
  ⟨printName t.name, t.depth.toInt.toNat, t.box.map (·.1.toInt.toNat), t.box.map (·.2.toInt.toNat)⟩

/-- What dimensions and targets ask for. -/
def ofTargets (stream : String) (dimensions : List DispatchDimension)
    (targets : List DispatchTarget) : DispatchCall :=
  ⟨printName stream, ⟨dimensions.map fun d => (extentsOf d).1,
    dimensions.map fun d => (extentsOf d).2.1, dimensions.map fun d => (extentsOf d).2.2,
    targets.map boxOf⟩⟩

/-- Dimensions and targets that a call can have: there are some, though not more than can be
    counted, and every number is as large as it has to be. -/
structure InRange (dimensions : List DispatchDimension) (targets : List DispatchTarget) : Prop where
  dimensions_ne : dimensions ≠ []
  targets_ne : targets ≠ []
  dimensions_lt : dimensions.length < 2 ^ 63
  targets_le : targets.length ≤ mostConsumers
  dimension : ∀ d ∈ dimensions, 1 ≤ d.size.toInt ∧ 1 ≤ d.step.toInt ∧ 1 ≤ d.storeExtent.toInt
  depth : ∀ t ∈ targets, 0 ≤ t.depth.toInt
  rank : ∀ t ∈ targets, t.box.length = dimensions.length
  side : ∀ t ∈ targets, ∀ s ∈ t.box, 0 ≤ s.1.toInt ∧ 1 ≤ s.2.toInt

section

variable {dimensions : List DispatchDimension} {targets : List DispatchTarget}
  (h : InRange dimensions targets)

include h

theorem InRange.spellsDimensions : List.Forall₂ SpellsDimension
    (dimensions.map fun d => [Expr.ofInt d.size, .ofInt d.step, .ofInt d.storeExtent])
    (dimensions.map extentsOf) := by
  refine forall₂_maps fun d hd => ?_
  rcases h.dimension d hd with ⟨hsize, hstep, hstore⟩
  exact ⟨_, _, _, rfl, Expr.counts_ofInt_pos hsize, Expr.counts_ofInt_pos hstep,
    Expr.counts_ofInt_pos hstore⟩

theorem InRange.spellsConsumers : List.Forall₂ (SpellsConsumer dimensions.length)
    (targets.map fun t => [Expr.textImm t.name, .ofInt t.depth]
      ++ t.box.flatMap fun (offset, extent) => [.ofInt offset, .ofInt extent])
    (targets.map boxOf) := by
  refine forall₂_maps fun t ht => ?_
  have hsides : List.Forall₂ SpellsSide (t.box.map fun s => [Expr.ofInt s.1, .ofInt s.2])
      (t.box.map fun s => (s.1.toInt.toNat, s.2.toInt.toNat)) := by
    refine forall₂_maps fun s hs => ?_
    rcases h.side t ht s hs with ⟨hoffset, hextent⟩
    exact ⟨_, _, rfl, Expr.counts_ofInt hoffset, Expr.counts_ofInt_pos hextent⟩
  have hbox := SpellsConsumer.mk t.name (Expr.counts_ofInt (h.depth t ht)) hsides
    (by rw [List.length_map, h.rank t ht])
  rw [List.map_map, List.map_map] at hbox
  exact hbox

theorem InRange.spelled (stream : String) :
    Spelled ([.buffer stream, .ofInt (Int64.ofInt dimensions.length)]
        ++ (dimensions.flatMap fun d => [.ofInt d.size, .ofInt d.step, .ofInt d.storeExtent])
        ++ [.ofInt (Int64.ofInt targets.length)]
        ++ targets.flatMap fun t => [.textImm t.name, .ofInt t.depth]
            ++ t.box.flatMap fun (offset, extent) => [.ofInt offset, .ofInt extent])
      (ofTargets stream dimensions targets) := by
  have hroom : mostConsumers < 2 ^ 63 := by decide
  have hrank : (Expr.ofInt (Int64.ofInt dimensions.length)).Counts (dimensions.map extentsOf).length
      ∧ 1 ≤ (dimensions.map extentsOf).length := by
    rw [List.length_map]
    exact ⟨Expr.counts_length h.dimensions_lt, List.length_pos_iff.mpr h.dimensions_ne⟩
  have hcount : (Expr.ofInt (Int64.ofInt targets.length)).Counts (targets.map boxOf).length
      ∧ 1 ≤ (targets.map boxOf).length := by
    rw [List.length_map]
    exact ⟨Expr.counts_length (Nat.lt_of_le_of_lt h.targets_le hroom),
      List.length_pos_iff.mpr h.targets_ne⟩
  have hconsumers := h.spellsConsumers
  -- The rank that the boxes are read with is the number of dimensions as it was read.
  rw [← List.length_map extentsOf] at hconsumers
  have hcall := Spelled.mk (Expr.names_buffer stream) hrank h.spellsDimensions hcount hconsumers
  rw [List.map_map, List.map_map, List.map_map] at hcall
  simp only [List.flatMap, List.append_assoc, List.cons_append, List.nil_append] at hcall ⊢
  exact hcall

end

theorem asksFor_dispatchStream (stream : String) {dimensions : List DispatchDimension}
    {targets : List DispatchTarget} (h : InRange dimensions targets) :
    (Stmt.dispatchStream stream dimensions targets).AsksFor callName ofArgs
      (ofTargets stream dimensions targets) := by
  have hroom : (targets.map boxOf).length ≤ mostConsumers := by
    rw [List.length_map]
    exact h.targets_le
  exact ⟨_, rfl, (decodesCall.accepts _ _).mpr ⟨h.spelled stream, hroom⟩⟩

/-! ### Calls of the wrong length -/

/-- A call has at least four operands for each consumer. -/
theorem Spelled.consumers_le {args : List Expr} {call : DispatchCall} (h : Spelled args call) :
    4 * call.plan.consumers.length ≤ args.length := by
  cases h with
  | @mk s e e' stream groups members dimensions consumers _ hrank _ _ hconsumers =>
      have hmember : ∀ member box, SpellsConsumer dimensions.length member box →
          4 ≤ member.length := by
        rintro _ _ ⟨_, _, hsides, hlength⟩
        have htwo := length_flatten_of_forall₂ (k := 2) (fun _ _ ⟨_, _, h, _⟩ => by simp [h]) hsides
        rw [List.length_cons, List.length_cons]
        omega
      have hfour := length_flatten_of_forall₂ hmember hconsumers
      rw [List.length_cons, List.length_cons, List.length_append, List.length_cons]
      change 4 * consumers.length ≤ _
      omega

variable {args : List Expr} {call : DispatchCall} (h : ofArgs args = .ok call)

include h

/-- A call that ends too early blames the input. -/
theorem refuses_short {short : List Expr} (hshort : short <+: args) (hne : short ≠ args) :
    ∃ e : Error, ofArgs short = .error (.error e) ∧ e.blamesInput = true := by
  rcases hshort with ⟨more, rfl⟩
  have hmore : more ≠ [] := fun hnil => hne (by rw [hnil, List.append_nil])
  exact ⟨_, decodesCall.lacks short more call ((decodesCall.accepts _ _).mp h) hmore, rfl⟩

/-- A call with more operands than it asks for blames the input. -/
theorem refuses_long {long : List Expr} (hlong : args <+: long) (hne : long ≠ args) :
    ∃ e : Error, ofArgs long = .error (.error e) ∧ e.blamesInput = true := by
  rcases hlong with ⟨more, rfl⟩
  have hmore : more ≠ [] := fun hnil => hne (by rw [hnil, List.append_nil])
  exact ⟨_, decodesCall.trails args more call ((decodesCall.accepts _ _).mp h) hmore, rfl⟩

end DispatchCall

/-- Each of the four operations on streams is read from exactly the operands that spell it. A
    dispatch with operands missing or left over blames the input. And a statement put together
    from numbers in range is read as what it was put together from. -/
theorem streamOperations_read (args : List Expr) :
    (∀ call, ReadStream.ofArgs args = .ok call ↔ ReadStream.Spelled args call)
    ∧ (∀ call, WriteStream.ofArgs args = .ok call ↔ WriteStream.Spelled args call)
    ∧ (∀ call, LineBufferCall.ofArgs args = .ok call ↔ LineBufferCall.Spelled args call)
    ∧ (∀ call, DispatchCall.ofArgs args = .ok call ↔
        DispatchCall.Spelled args call ∧ call.plan.consumers.length ≤ DispatchCall.mostConsumers)
    -- operands that fit into memory never spell more consumers than there is room for
    ∧ (args.length ≤ 4 * DispatchCall.mostConsumers → ∀ call, DispatchCall.Spelled args call →
        call.plan.consumers.length ≤ DispatchCall.mostConsumers)
    ∧ (∀ call, DispatchCall.ofArgs args = .ok call →
        (∀ short, short <+: args → short ≠ args → ∃ e : Error,
          DispatchCall.ofArgs short = .error (.error e) ∧ e.blamesInput = true)
        ∧ ∀ long, args <+: long → long ≠ args → ∃ e : Error,
          DispatchCall.ofArgs long = .error (.error e) ∧ e.blamesInput = true)
    ∧ (∀ stream stencil consumer, (Stmt.readStream stream stencil consumer).AsksFor
        ReadStream.callName ReadStream.ofArgs (.ofConsumer stream stencil consumer))
    ∧ (∀ stream stencil loops, (∀ l ∈ loops, 0 ≤ l.2.toInt) →
        (Stmt.writeStream stream stencil loops).AsksFor WriteStream.callName WriteStream.ofArgs
          (.ofLoops stream stencil loops))
    ∧ (∀ input output extents, extents ≠ [] → (∀ e ∈ extents, 1 ≤ e.toInt) →
        (Stmt.lineBuffer input output extents).AsksFor LineBufferCall.callName
          LineBufferCall.ofArgs
          ⟨printName input, printName output, extents.map fun e => e.toInt.toNat⟩)
    ∧ ∀ stream dimensions targets, DispatchCall.InRange dimensions targets →
        (Stmt.dispatchStream stream dimensions targets).AsksFor DispatchCall.callName
          DispatchCall.ofArgs (.ofTargets stream dimensions targets) := by
  refine ⟨fun _ => ReadStream.ofArgs_iff, fun _ => WriteStream.ofArgs_iff,
    fun _ => LineBufferCall.ofArgs_iff, DispatchCall.decodesCall.accepts args, ?_, ?_,
    ReadStream.asksFor_readStream, fun _ _ _ => WriteStream.asksFor_writeStream _ _,
    fun _ _ _ => LineBufferCall.asksFor_lineBuffer _ _,
    fun _ _ _ => DispatchCall.asksFor_dispatchStream _⟩
  · intro hroom call hspelled
    have hle := hspelled.consumers_le
    omega
  · exact fun call h => ⟨fun _ => DispatchCall.refuses_short h, fun _ =>
      DispatchCall.refuses_long h⟩

/-- A grid of two dimensions. -/
def gridDimensions : List DispatchDimension := [⟨1, 1, 8⟩, ⟨1, 1, 4⟩]

/-- A consumer of the whole grid, and one of its left half with a queue. -/
def gridTargets : List DispatchTarget :=
  [⟨"a", 0, [(0, 8), (0, 4)]⟩, ⟨"b", 2, [(0, 4), (0, 4)]⟩]

/-- A dispatch over a grid is read back, and blames the input when it is cut or continued. So are
    a write of an image and a line buffer over it. -/
theorem streamOperations_read_grid : ∃ args : List Expr,
    DispatchCall.InRange gridDimensions gridTargets
    ∧ (Stmt.dispatchStream "in.stream" gridDimensions gridTargets).operation?
      = some (DispatchCall.callName, args)
    ∧ DispatchCall.ofArgs args = .ok (.ofTargets "in.stream" gridDimensions gridTargets)
    ∧ (args.length ≤ 4 * DispatchCall.mostConsumers
      ∧ (DispatchCall.ofTargets "in.stream" gridDimensions gridTargets).plan.consumers.length
        ≤ DispatchCall.mostConsumers)
    ∧ (∃ e : Error, DispatchCall.ofArgs args.dropLast = .error (.error e) ∧ e.blamesInput = true)
    ∧ (∃ e : Error, DispatchCall.ofArgs (args ++ args) = .error (.error e) ∧ e.blamesInput = true)
    ∧ (Stmt.writeStream "out.stream" "out.stencil" [("x", 61), ("y", 0)]).AsksFor
      WriteStream.callName WriteStream.ofArgs ⟨"out_stream", "out_stencil", "out", some [62, 1]⟩
    ∧ (Stmt.lineBuffer "in.stream" "out.stream" [64, 1]).AsksFor LineBufferCall.callName
      LineBufferCall.ofArgs ⟨"in_stream", "out_stream", [64, 1]⟩ := by
  have hrange : DispatchCall.InRange gridDimensions gridTargets :=
    ⟨by decide, by decide, by decide, by decide, by decide, by decide, by decide,
      by simp [gridTargets, or_imp, forall_and]⟩
  rcases DispatchCall.asksFor_dispatchStream "in.stream" hrange with ⟨args, hoperation, _⟩
  rcases streamOperations_read args with
    ⟨_, _, _, hdispatch, hroom, hlength, _, hwrite, hlineBuffer, hbuilt⟩
  rcases hbuilt "in.stream" _ _ hrange with ⟨args', hoperation', hread⟩
  -- Both calls are the same one, so what is said of the second holds of the first.
  cases hoperation
  cases hoperation'
  rcases hlength _ hread with ⟨hcut, hcontinued⟩
  refine ⟨_, hrange, rfl, hread, ⟨by decide, hroom (by decide) _ ((hdispatch _).mp hread).1⟩,
    hcut _ (List.dropLast_prefix _) ?_, hcontinued _ (List.prefix_append _ _) ?_, ?_, ?_⟩
  · exact fun h => absurd (congrArg List.length h) (by decide)
  · exact fun h => absurd (congrArg List.length h) (by decide)
  · exact hwrite "out.stream" "out.stencil" [("x", 61), ("y", 0)] (by simp)
  · exact hlineBuffer "in.stream" "out.stream" [64, 1] (by decide) (by simp)

end StencilRtl
