import StencilRtl.Proofs.Answers.Operands
import StencilRtl.Proofs.Answers.Windows
import StencilRtl.Proofs.LoopControl.Positions
import StencilRtl.Proofs.Subset.Expressions

/-!
# Moderate Kernels

What a kernel may ask for without making anything give way, and nests that are read of it.

Not every number in a kernel is checked before something is computed of it. A loop or a
stencil that is refused for its range is refused with the far end of the range in the text, and
the far end may be no word. A value without bits is given a wire. The elements of a window are
multiplied before anybody has looked at the result. `Node.Moderate` lists these places, each
with the number that is at stake there and nothing else.

A nest is built from what was read of it, so what a stage is to be made of can be told of the
nest already: its loops run, its stencils are small, and its expressions are moderate.

## Main definitions

* `volume`: The number of elements in a box.
* `Node.Moderate`: A node asks for nothing that gives way.
* `Expr.Moderate`, `Stmt.Moderate`: All nodes of an expression or a statement are moderate.
* `Action.Moderate`, `LoopNest.Small`: So is what was read of a nest.

## Theorems

* `Shape.answers_ofStencilType`: The shapes of moderate arguments are small.
* `LoopNest.Small.answers_enterLoop`, `LoopNest.Small.answers_realize` and the like: Reading a
  moderate nest.
-/

namespace StencilRtl

open Fallible

/-- The number of elements in a box. -/
def volume (bounds : List Interval) : Nat := (bounds.map fun b => b.extent.toInt.toNat).prod

/-- A stream operation asks for an image that is not larger than a word, or for consumers that
    there may be room for. -/
def OperationModerate (name : String) (args : List Expr) : Prop :=
  (name = LineBufferCall.callName → ∀ call ∈ (LineBufferCall.ofArgs args).toOption,
    call.storeExtents.prod < Word.limit) ∧
  (name = DispatchCall.callName → ∀ count ∈ DispatchCall.consumerCount? args,
    count ≤ DispatchCall.mostConsumers)

instance (name : String) (args : List Expr) : Decidable (OperationModerate name args) :=
  inferInstanceAs (Decidable ((_ → ∀ _ ∈ _, _) ∧ (_ → ∀ _ ∈ _, _)))

/-- A node asks for nothing that gives way. The elements of a realized buffer can be counted in
    32 bits. A stencil has bits, and a word holds the ends of its ranges and of those of loops.
    So do the values that are named or converted have bits. -/
def Node.Moderate : Node → Prop
  | .stmt (.realize name types bounds _) => volume bounds < 2 ^ 32 ∧
      (isStreamName name = false → (∀ t ∈ types, 0 < t.width) ∧
        ∀ b ∈ bounds, SignedWord.Fits (b.min.toInt + b.extent.toInt))
  | .stmt (.loop _ min extent _ _) => ∀ least ∈ min.constant?, ∀ count ∈ extent.constant?,
      Int64.minValue.toInt ≤ least + count
  | .stmt (.letIn _ value _) => 0 < value.type.width
  | .stmt (.evaluate (.call _ name args _)) => OperationModerate name args
  | .expr (.cast type _) => 0 < type.width
  | _ => True

instance : ∀ n : Node, Decidable n.Moderate
  | .stmt (.realize name types bounds _) => inferInstanceAs (Decidable
      (_ ∧ (isStreamName name = false → (∀ t ∈ types, _) ∧ ∀ b ∈ bounds, _)))
  | .stmt (.loop _ min extent _ _) =>
      inferInstanceAs (Decidable (∀ least ∈ min.constant?, ∀ count ∈ extent.constant?, _))
  | .stmt (.letIn _ value _) => inferInstanceAs (Decidable (0 < value.type.width))
  | .stmt (.evaluate value) =>
      match value with
      | .call _ name args _ => inferInstanceAs (Decidable (OperationModerate name args))
      | .intImm .. | .uintImm .. | .floatImm .. | .textImm .. | .var .. | .cast .. | .binary ..
      | .not .. | .select .. | .letIn .. | .load .. => .isTrue trivial
  | .stmt (.assert ..) | .stmt (.producer ..) | .stmt (.provide ..) | .stmt (.block ..)
  | .stmt (.branch ..) | .stmt (.store ..) | .stmt (.allocate ..) | .stmt (.free ..) =>
      .isTrue trivial
  | .expr (.cast type _) => inferInstanceAs (Decidable (0 < type.width))
  | .expr (.intImm ..) | .expr (.uintImm ..) | .expr (.floatImm ..) | .expr (.textImm ..)
  | .expr (.var ..) | .expr (.binary ..) | .expr (.not ..) | .expr (.select ..)
  | .expr (.letIn ..) | .expr (.call ..) | .expr (.load ..) => .isTrue trivial

/-- All nodes of an expression are moderate. -/
def Expr.Moderate (e : Expr) : Prop := ∀ x ∈ e.nodes, (Node.expr x).Moderate

/-- All nodes of a statement are moderate. -/
def Stmt.Moderate (s : Stmt) : Prop := ∀ x ∈ s.nodes, x.Moderate

instance (s : Stmt) : Decidable s.Moderate :=
  inferInstanceAs (Decidable (∀ x ∈ s.nodes, x.Moderate))

/-- The expressions of an action are moderate, and a name is given to a value that has bits. -/
structure Action.Moderate (a : Action) : Prop where
  exprs : ∀ e ∈ a.exprs, e.Moderate
  named : ∀ name value, a = .letIn name value → 0 < value.type.width

/-- What was read of a nest is small. The bounds of its loops are words, and it writes a
    stream. -/
structure LoopNest.Small (n : LoopNest) : Prop where
  vars : ∀ v ∈ n.scan ++ n.window, v.min + v.extent < Word.limit
  inputs : ∀ i ∈ n.inputs, i.shape.Small
  output : ∀ o ∈ n.output, o.port.shape.Small ∧ o.port.shape.isStream = true ∧
    ∀ extents ∈ o.storeExtents, ∀ extent ∈ extents, extent < Word.limit
  writeGuard : ∀ g ∈ n.writeGuard, g.Moderate
  guards : ∀ g ∈ n.guards, g.Moderate
  realized : ∀ l ∈ n.realized, l.shape.Small
  actions : ∀ a ∈ n.actions, a.Moderate

/-- What a stage is built from is small. -/
structure StagePlan.Small (p : StagePlan) : Prop where
  vars : ∀ v ∈ p.vars, v.min + v.extent < Word.limit
  inputs : ∀ i ∈ p.inputs, i.shape.Small
  output : p.output.shape.Small
  writeGuard : ∀ g ∈ p.writeGuard, g.Moderate
  params : ∀ q ∈ p.params, q.2.Small
  stencils : ∀ l ∈ p.stencils, l.shape.Small
  actions : ∀ a ∈ p.actions, a.Moderate
  latency : p.latency = outputLatency

/-! ### Shapes -/

/-- The extents that are read of bounds have as many elements as the bounds. -/
theorem answers_extents {f : Interval → Fallible Nat} {bounds : List Interval}
    (hf : ∀ b ∈ bounds, Answers (f b) fun n => n = b.extent.toInt.toNat ∧ 0 < n) :
    Answers (bounds.mapM f) fun ns => ns.prod = volume bounds ∧ ∀ n ∈ ns, 0 < n := by
  induction bounds with
  | nil => exact ⟨rfl, List.forall_mem_nil _⟩
  | cons b rest ih =>
      rw [List.forall_mem_cons] at hf
      rw [List.mapM_cons]
      refine hf.1.bind fun n hn => (ih hf.2).bind fun ns hns => ⟨?_, ?_⟩
      · rw [List.prod_cons, hns.1, hn.1]
        rfl
      · exact List.forall_mem_cons.mpr ⟨hn.2, hns.2⟩

/-- An extent that is not refused is what it was asked for. -/
theorem pos_of_not_le {x : Int64} (h : ¬ x ≤ 0) : 0 < x.toInt.toNat := by
  rw [Int64.le_iff_toInt_le] at h
  have hzero : (0 : Int64).toInt = 0 := by decide
  omega

theorem ElemType.answers_ofScalar (t : ScalarType) :
    Answers (ofScalar t) fun elem => elem.bits = t.width ∧ elem.bits < 2 ^ 32 := by
  unfold ofScalar
  split
  · trivial
  · exact ⟨rfl, t.bits.toNat_lt⟩

namespace Shape

theorem answers_validate (s : Shape) : Answers s.validate fun _ => True := by
  unfold validate
  repeat' split
  all_goals simp

theorem answers_extentOfBound (b : Interval) :
    Answers (extentOfBound b) fun n => n = b.extent.toInt.toNat ∧ 0 < n := by
  unfold extentOfBound
  split
  · trivial
  split
  · trivial
  next hextent =>
  exact ⟨rfl, pos_of_not_le hextent⟩

/-- The shape of an argument is small, if its elements are few and its queue not endless. -/
theorem answers_ofStencilType {t : StencilType} (hvolume : volume t.bounds < 2 ^ 32) :
    Answers (ofStencilType t) fun s => s.extents.prod = volume t.bounds ∧
      ((s.isStream = true → t.depth.toNat + 1 < Word.limit) → s.Small) := by
  refine (ElemType.answers_ofScalar t.elem).bind fun elem helem =>
    (answers_extents fun b _ => answers_extentOfBound b).bind fun extents hextents =>
      (answers_validate _).bind_ok fun _ hvalid _ => ⟨hextents.1, fun hdepth => ?_⟩
  have helems : extents.prod < 2 ^ 32 := by rwa [hextents.1]
  refine ⟨hvalid, helem.2, helems, fun store hstore => ?_, hdepth⟩
  simp only [] at hstore
  split at hstore
  · exact Nat.lt_trans (lt_of_mem_extents hextents.2 helems store hstore) (by decide)
  · rcases List.mem_map.mp hstore with ⟨word, _, rfl⟩
    exact word.toNat_lt

end Shape

namespace Construction

theorem answers_streamExtent (name : String) (b : Interval) :
    Answers (streamExtent name b) fun n => n = b.extent.toInt.toNat ∧ 0 < n := by
  unfold streamExtent
  split
  · trivial
  next hextent =>
  exact ⟨rfl, pos_of_not_le hextent⟩

/-- The shape of a realized stream is small if it passes its check. -/
theorem answers_realizedShape {name : String} {types : List ScalarType} {bounds : List Interval}
    (hvolume : volume bounds < 2 ^ 32) :
    Answers (realizedShape name types bounds) fun s => s.validate = .ok () → s.Small := by
  unfold realizedShape
  split
  · refine (ElemType.answers_ofScalar _).bind fun elem helem =>
      (answers_extents fun b _ => answers_streamExtent name b).bind
        fun extents hextents hvalid => ?_
    have helems : extents.prod < 2 ^ 32 := by rwa [hextents.1]
    exact ⟨hvalid, helem.2, helems, fun store hstore =>
      Nat.lt_trans (lt_of_mem_extents hextents.2 helems store hstore) (by decide), fun _ =>
        (by decide : 1 + 1 < Word.limit)⟩
  · trivial

end Construction

/-- No loop of a plan that passes its check is empty. -/
theorem StagePlan.answers_validate (p : StagePlan) :
    Answers p.validate fun _ => ∀ v ∈ p.vars, 0 < v.extent := by
  unfold validate
  split
  · trivial
  split
  · trivial
  next hloops =>
  split
  · trivial
  split
  · trivial
  · intro v hv
    have hfull := List.find?_eq_none.mp hloops v hv
    simp only [decide_eq_true_eq] at hfull
    omega

namespace LoopNest

variable {n : LoopNest}

theorem small_empty (producer : String) (free : List String) : (empty producer free).Small where
  vars := List.forall_mem_nil _
  inputs := List.forall_mem_nil _
  output _ ho := absurd ho (by simp [empty])
  writeGuard _ hg := absurd hg (by simp [empty])
  guards := List.forall_mem_nil _
  realized := List.forall_mem_nil _
  actions := List.forall_mem_nil _

theorem answers_constantBound (name bound : String) (e : Expr) :
    Answers (constantBound name bound e) fun value => e.constant? = some value := by
  unfold constantBound
  split
  · next value hvalue => exact hvalue
  · trivial

theorem answers_stencilExtent {name : String} {b : Interval}
    (hends : SignedWord.Fits (b.min.toInt + b.extent.toInt)) :
    Answers (stencilExtent name b) fun n => n = b.extent.toInt.toNat ∧ 0 < n := by
  unfold stencilExtent
  split
  · refine Answers.bind_of_ok (a := b.min.toInt + b.extent.toInt) ?_ (by trivial)
    rw [SignedWord.add, if_pos hends]
  · next hrange =>
    rw [not_or] at hrange
    exact ⟨rfl, pos_of_not_le hrange.2⟩

theorem answers_stencilShape {name : String} {types : List ScalarType} {bounds : List Interval}
    (hvolume : volume bounds < 2 ^ 32) (hbits : ∀ t ∈ types, 0 < t.width)
    (hends : ∀ b ∈ bounds, SignedWord.Fits (b.min.toInt + b.extent.toInt)) :
    Answers (stencilShape name types bounds) Shape.Small := by
  unfold stencilShape
  split
  · rw [List.forall_mem_singleton] at hbits
    refine (answers_extents fun b hb => answers_stencilExtent (hends b hb)).bind
      fun extents hextents => (ElemType.answers_ofScalar _).bind fun elem helem => ?_
    refine ⟨Shape.validate_of_plain rfl ?_ hextents.2, helem.2, ?_, List.forall_mem_nil _,
      fun hstream => absurd hstream (by simp [Shape.isStream, Shape.stencil])⟩
    · exact helem.1 ▸ hbits
    · exact hextents.1 ▸ hvolume
  · trivial

/-- Many conditions together are moderate if each of them is. -/
theorem moderate_conjunction {conditions : List Expr} (h : ∀ g ∈ conditions, g.Moderate) :
    ∀ g ∈ conjunction conditions, g.Moderate := by
  cases conditions with
  | nil => exact fun g hg => absurd hg (by simp [conjunction])
  | cons first rest =>
      rw [List.forall_mem_cons] at h
      rintro g hg
      rcases Option.some.inj hg with rfl
      refine List.foldlRecOn (motive := Expr.Moderate) rest _ h.1 fun a ha b hb x hx => ?_
      rcases List.mem_cons.mp hx with rfl | hx
      · trivial
      · rcases List.mem_append.mp hx with hx | hx
        · exact ha x hx
        · exact h.2 b hb x hx

namespace Small

variable (h : n.Small)

include h

theorem pushGuard {condition : Expr} (hcondition : condition.Moderate) :
    (n.pushGuard condition).Small :=
  { h with
    guards := List.forall_mem_append.mpr ⟨h.guards, List.forall_mem_singleton.mpr hcondition⟩ }

theorem popGuard : n.popGuard.Small :=
  { h with guards := fun g hg => h.guards g (List.dropLast_subset _ hg) }

/-- The bounds of a loop are constants, and a loop that is refused tells where it would have
    ended. -/
theorem answers_enterLoop {name : String} {min extent : Expr} {body : Stmt}
    (hends : ∀ least ∈ min.constant?, ∀ count ∈ extent.constant?,
      Int64.minValue.toInt ≤ least + count) :
    Answers (n.enterLoop name min extent body) Small := by
  refine (answers_constantBound _ _ _).bind fun least hleast =>
    (answers_constantBound _ _ _).bind fun count hcount => ?_
  have hlow := hends least hleast count hcount
  have hleast := Expr.lt_of_constant? hleast
  have hcount := Expr.lt_of_constant? hcount
  have hmost : Int64.maxValue.toInt = 2 ^ 63 - 1 := by decide
  split
  -- A refusal names the end of the loop, which has to be a signed word for this.
  · refine Answers.bind_of_ok (a := least + count) ?_ (by trivial)
    rw [SignedWord.add, if_pos ⟨hlow, by omega⟩]
  -- Past the refusals both bounds are natural numbers.
  next hrange =>
  rw [not_or] at hrange
  have hlimit : Word.limit = 2 ^ 64 := rfl
  have hvar : least.toNat + count.toNat < Word.limit := by omega
  simp only []
  split
  · split
    · refine { h with vars := ?_ }
      simp only [List.forall_mem_append, List.forall_mem_singleton]
      have hvars := List.forall_mem_append.mp h.vars
      exact ⟨⟨hvars.1, hvar⟩, hvars.2⟩
    · trivial
  · refine { h with vars := ?_ }
    simp only [List.forall_mem_append, List.forall_mem_singleton]
    have hvars := List.forall_mem_append.mp h.vars
    exact ⟨hvars.1, hvars.2, hvar⟩

theorem answers_realize {name : String} {types : List ScalarType} {bounds : List Interval}
    (hvolume : volume bounds < 2 ^ 32) (hbits : ∀ t ∈ types, 0 < t.width)
    (hends : ∀ b ∈ bounds, SignedWord.Fits (b.min.toInt + b.extent.toInt)) :
    Answers (n.realize name types bounds) Small := by
  refine (answers_stencilShape hvolume hbits hends).bind fun shape hshape => ?_
  simp only []
  split
  · trivial
  · exact { h with
      realized := List.forall_mem_append.mpr ⟨h.realized, List.forall_mem_singleton.mpr hshape⟩ }

theorem answers_provide {name : String} {values args : List Expr}
    (hvalues : ∀ e ∈ values, e.Moderate) (hargs : ∀ e ∈ args, e.Moderate) :
    Answers (n.provide name values args) Small := by
  unfold provide
  split
  · trivial
  split
  · refine { h with actions := List.forall_mem_append.mpr ⟨h.actions, ?_⟩ }
    rw [List.forall_mem_singleton] at hvalues
    exact List.forall_mem_singleton.mpr
      ⟨List.forall_mem_cons.mpr ⟨hvalues, hargs⟩, fun _ _ hlet => absurd hlet (by simp)⟩
  · trivial

theorem answers_bind {name : String} {value : Expr} (hvalue : value.Moderate)
    (hbits : 0 < value.type.width) : Answers (n.bind name value) Small := by
  unfold bind
  simp only []
  split
  · trivial
  · refine { h with actions := List.forall_mem_append.mpr ⟨h.actions, ?_⟩ }
    refine List.forall_mem_singleton.mpr ⟨List.forall_mem_singleton.mpr hvalue, fun _ _ hlet => ?_⟩
    rcases Action.letIn.inj hlet with ⟨_, rfl⟩
    exact hbits

theorem answers_read {call : ReadStream} {shape : Shape} (hshape : shape.Small) :
    Answers (n.read call shape) Small := by
  unfold read
  split
  · split
    · exact h
    · trivial
  · exact { h with
      inputs := List.forall_mem_append.mpr ⟨h.inputs, List.forall_mem_singleton.mpr hshape⟩ }

theorem answers_write {call : WriteStream} {shape : Shape} (hshape : shape.Small)
    (hstream : shape.isStream = true)
    (hstores : ∀ extents ∈ call.storeExtents, ∀ extent ∈ extents, extent < Word.limit) :
    Answers (n.write call shape) Small := by
  unfold write
  split
  · trivial
  · refine { h with writeGuard := moderate_conjunction h.guards, output := fun o ho => ?_ }
    rcases Option.some.inj ho with rfl
    exact ⟨hshape, hstream, hstores⟩

/-- The stage of a small nest is small, and so is its output. -/
theorem answers_finish {params : List (String × Shape)} (hparams : ∀ q ∈ params, q.2.Small) :
    Answers (n.finish params) fun r =>
      r.1.Small ∧ r.1.output = r.2.port ∧ n.output = some r.2 := by
  unfold finish
  split
  · trivial
  · next output houtput =>
    refine (StagePlan.answers_validate _).bind fun _ _ => ⟨?_, rfl, houtput⟩
    exact ⟨h.vars, h.inputs, (h.output output houtput).1, h.writeGuard, hparams,
      fun l hl => h.realized l (List.mem_of_mem_filter hl), h.actions, rfl⟩

end Small

end LoopNest

end StencilRtl
