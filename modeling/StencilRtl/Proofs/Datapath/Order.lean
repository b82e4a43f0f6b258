import StencilRtl.Proofs.Datapath.Load

/-!
# The Order of the Actions

When it does not matter that all actions happen in one load.

The results of a load put into the window in order are the run at once. The run in
order ends in the same window under `InOrder`. The induction follows the run in
order and carries `Abreast`: whatever lasts from here on is the same in the run and
in the hardware. So every expression means the same in both, and a store keeps what
lasts, since a local element lasts only from its last store on, which is the one
its driver takes.

An index goes through a signal that has just enough bits for all elements of the
window. It survives that if it is one of them, which is all `Indexes` asks of an
interpretation.

## Main definitions

* `results`: The results of a load put into the window.
* `Interpretation.Indexes`: An index survives a signal that is wide enough.
* `StagePlan.Abreast`: What lasts is the same in a run and in the hardware.

## Theorems

* `run_atOnce`: The results of a load are those of the run at once.
* `run_inOrder`: Under `InOrder` both runs end in the same window.
-/

namespace StencilRtl

/-- An index survives a signal that is wide enough, and so does a constant one. -/
structure Interpretation.Indexes {V : Type} (I : Interpretation V) : Prop where
  literal : ∀ width n, n < 2 ^ width → I.index (I.literal width n) = n
  fit : ∀ width v, I.index v < 2 ^ width → I.index (I.fit width v) = I.index v

section

variable {V : Type} {I : Interpretation V} {σ : Signals V}

/-- The results of a load put into the window, those with numbers from `k` on. -/
def results (I : Interpretation V) (σ : Signals V) (k count : Nat) (window : Nat → V) : Nat → V :=
  (List.range' k count).foldl
    (fun w i => Function.update w (I.index (σ.value (indexSignal i))) (σ.value (resultSignal i)))
    window

theorem results_succ (k count : Nat) (window : Nat → V) :
    results I σ k (count + 1) window
      = results I σ (k + 1) count (Function.update window
          (I.index (σ.value (indexSignal k))) (σ.value (resultSignal k))) := by
  rw [results, List.range'_succ, List.foldl_cons]
  rfl

/-- An index into a window survives the signal that carries it. -/
theorem Timing.atOnce_place (hI : I.Indexes) {p : AssemblyPlan} {indexWidth : Nat}
    (hwidth : p.indexWidth = .ok indexWidth) {spot : Spot V}
    (h : spot.flat I < p.shape.extents.prod) :
    (Timing.atOnce I σ indexWidth).place spot = spot.flat I := by
  rcases Fallible.bind_ok.mp hwidth with ⟨elems, helems, hpure⟩
  rcases Except.ok.inj hpure with ⟨⟩
  rw [← Word.product_ok helems] at h
  have hroom := Nat.lt_of_lt_of_le h (le_two_pow_bitsNeededFor elems)
  cases spot with
  | fixed flat =>
      have hliteral := hI.literal _ _ hroom
      rw [Timing.atOnce]
      simp only [Spot.flat] at hroom hliteral ⊢
      rw [hI.fit _ _ (by rw [hliteral]; exact hroom), hliteral]
  | computed flat =>
      rw [Timing.atOnce]
      exact hI.fit _ _ hroom

namespace StagePlan

variable {p : StagePlan}

/-- The results of a load are those of the run at once. -/
theorem run_atOnce {indexWidth : Nat} (actions : List Action) (k : Nat)
    (stored : List StoredElement) (s : Signals V)
    (h : p.Follows I σ indexWidth k actions stored) :
    (p.run I (.atOnce I σ indexWidth) s actions).element p.output.stencil
      = results I σ k (actions.countP (Action.writesTo p.output.stencil))
          (s.element p.output.stencil) := by
  induction h using Follows.induction_on generalizing s with
  | nil k => rfl
  | letIn hvalue hrest ih => exact ih _
  | @output k stencil args value rest stored hout hvalue hplace hrest hall ih =>
      have hrun := ih (p.step I (.atOnce I σ indexWidth) s (.provide stencil args value))
      rw [run, List.foldl_cons, countP_writesTo_output hout, results_succ, hplace, hvalue]
      simp only [step, storePlace, storeBits, storeShape?, ← hout, Function.update_self] at hrun ⊢
      exact hrun
  -- A store into a local stencil does not touch the window.
  | @kept k stencil args value rest flat x stored hout _ _ _ hrest hall ih =>
      have hrun := ih (p.step I (.atOnce I σ indexWidth) s (.provide stencil args value))
      rw [run, List.foldl_cons, countP_writesTo_local hout]
      simp only [step, Function.update_of_ne (Ne.symm hout)] at hrun ⊢
      exact hrun

/-- The shape of a local stencil is that of its last declaration. -/
theorem exists_local {stencil : String} {shape : Shape} (hlocal : p.isLocal stencil = true)
    (hshape : p.storeShape? stencil = some shape) :
    ∃ l ∈ p.stencils, l.name = stencil ∧ l.shape = shape := by
  rcases Bool.and_eq_true_iff.mp hlocal with ⟨hout, hany⟩
  rcases List.any_eq_true.mp hany with ⟨l, hl, hname⟩
  have hother : ¬stencil = p.output.stencil := of_decide_eq_true hout
  rw [storeShape?, if_neg hother] at hshape
  rcases Option.map_eq_some_iff.mp hshape with ⟨entry, hfind, rfl⟩
  rw [scope, List.reverse_append, List.find?_append] at hfind
  -- Locals are looked at before windows and parameters, so that one of them is found.
  have hown : ∃ x ∈ (p.stencils.map fun l => (l.name, l.shape)).reverse,
      decide (x.1 = stencil) = true :=
    ⟨(l.name, l.shape), List.mem_reverse.mpr (List.mem_map.mpr ⟨l, hl, rfl⟩), hname⟩
  rcases Option.isSome_iff_exists.mp (List.find?_isSome.mpr hown) with ⟨found, hfound⟩
  rw [hfound, Option.some_or, Option.some.injEq] at hfind
  rw [hfind] at hfound
  have hmem := List.mem_reverse.mp (List.mem_of_find?_eq_some hfound)
  rcases List.mem_map.mp hmem with ⟨l', hl', hpair⟩
  refine ⟨l', hl', ?_, ?_⟩
  · have hname' : decide (entry.1 = stencil) = true :=
      List.find?_some (p := fun x : String × Shape => decide (x.1 = stencil)) hfound
    rw [← of_decide_eq_true hname', ← hpair]
  · rw [← hpair]

/-- What is stored last into an element is what it holds. -/
theorem storedValue?_last (before after : List StoredElement) (e : StoredElement)
    (h : ∀ e' ∈ after, ¬(e'.stencil = e.stencil ∧ e'.flat = e.flat)) :
    storedValue? (before ++ e :: after) e.stencil e.flat = some e.value := by
  have hafter :
      (after.reverse.find? fun e' => e'.stencil = e.stencil && e'.flat = e.flat) = none := by
    refine List.find?_eq_none.mpr fun e' he' hsame => ?_
    rcases Bool.and_eq_true_iff.mp hsame with ⟨hstencil, hflat⟩
    exact h e' (List.mem_reverse.mp he') ⟨of_decide_eq_true hstencil, of_decide_eq_true hflat⟩
  rw [storedValue?, List.reverse_append, List.reverse_cons, List.append_assoc, List.find?_append,
    hafter, Option.none_or, List.singleton_append, List.find?_cons_of_pos (by simp),
    Option.map_some]

/-- An action that stores into an element stores there. -/
theorem storesInto_spot {stencil written : String} {place : Nat} {args : List Expr} {value : Expr}
    {s : Signals V} (h : p.storesInto stencil place (.provide written args value) = true) :
    stencil = written ∧ place = (p.scope.spot I s [] written args).flat I := by
  rcases Bool.and_eq_true_iff.mp h with ⟨hname, hplace⟩
  rcases Option.map_eq_some_iff.mp (of_decide_eq_true hplace) with ⟨index, hindex, hflat⟩
  refine ⟨(of_decide_eq_true hname).symm, ?_⟩
  rw [Scope.spot, hindex, ← hflat]
  rfl

/-- Only actions that store into an element leave a value for it. -/
theorem Follows.notStored {indexWidth : Nat} {stencil : String} {place : Nat}
    (actions : List Action)
    (k : Nat) (stored : List StoredElement) (h : p.Follows I σ indexWidth k actions stored)
    (hnone : ∀ a ∈ actions, p.storesInto stencil place a = false) :
    ∀ e ∈ stored, ¬(e.stencil = stencil ∧ e.flat = place) := by
  induction h using Follows.induction_on with
  | nil k => exact fun e he => absurd he List.not_mem_nil
  | letIn _ _ ih => exact ih (List.forall_mem_cons.mp hnone).2
  | output _ _ _ _ _ ih => exact ih (List.forall_mem_cons.mp hnone).2
  | @kept k written args value rest flat x stored _ _ hspot _ _ _ ih =>
      rw [List.forall_mem_cons] at hnone
      refine List.forall_mem_cons.mpr ⟨?_, ih hnone.2⟩
      rintro ⟨rfl, rfl⟩
      -- The place was known in advance, so the store is one into this element.
      have hstores := hnone.1
      simp only [storesInto, Scope.spot] at hstores hspot
      cases hindex : args.mapM Expr.constant? with
      | none =>
          rw [hindex] at hspot
          exact absurd hspot (by simp)
      | some index =>
          rw [hindex] at hspot hstores
          simp [Spot.fixed.inj hspot] at hstores

/-- Binding a name keeps what lasts, since from then on the name does. -/
theorem agree_letIn {name : String} {value : Expr} {rest : List Action}
    {stored : List (String × Nat)} {s : Signals V}
    (h : Scope.Agree s (p.lasting stored (.letIn name value :: rest)) σ)
    (hvalue : σ.value name = I.fit value.type.width (p.scope.meaning I s [] value)) :
    Scope.Agree (p.step I (.inOrder I) s (.letIn name value)) (p.lasting stored rest) σ := by
  constructor
  · intro n hn
    -- The new name is bound from here on. Any other has to last through the binding as well.
    by_cases hname : n = name
    · rw [hname, hvalue]
      simp only [step, Timing.inOrder_seen, Function.update_self]
    · simp only [step, Function.update_of_ne hname]
      refine h.value n fun a ha => ?_
      rcases List.mem_cons.mp ha with rfl | ha
      · simp only [Action.binds, Ne.symm hname, decide_false]
      · exact hn a ha
  · intro stencil place hlasting
    refine h.element stencil place
      ⟨hlasting.1, fun hlocal => ⟨(hlasting.2 hlocal).1, fun a ha => ?_⟩⟩
    rcases List.mem_cons.mp ha with rfl | ha
    · rfl
    · exact (hlasting.2 hlocal).2 a ha

/-- A store keeps what lasts: an element of the window no longer does, and a local
    one does if this is its last store. -/
theorem agree_provide {written : String} {args : List Expr} {value : Expr} {rest : List Action}
    {stored : List (String × Nat)} {s : Signals V}
    (h : Scope.Agree s (p.lasting stored (.provide written args value :: rest)) σ)
    (hforeign : ¬written = p.output.stencil → p.isLocal written = true)
    (hlast : ¬written = p.output.stencil →
      (∀ a ∈ rest, p.storesInto written ((p.scope.spot I s [] written args).flat I) a = false) →
      σ.element written ((p.scope.spot I s [] written args).flat I)
        = I.fit (p.storeBits written) (p.scope.meaning I s [] value)) :
    Scope.Agree (p.step I (.inOrder I) s (.provide written args value))
      (p.lasting ((written, (p.scope.spot I s [] written args).flat I) :: stored) rest) σ := by
  have hplace : p.storePlace I (.inOrder I) written (p.scope.spot I s [] written args)
      = (p.scope.spot I s [] written args).flat I := by
    rw [storePlace]
    split <;> rfl
  constructor
  · intro n hn
    refine h.value n fun a ha => ?_
    rcases List.mem_cons.mp ha with rfl | ha
    · rfl
    · exact hn a ha
  · intro stencil place hlasting
    simp only [step, Timing.inOrder_seen]
    rw [hplace]
    -- The element that is stored into is apart from all others.
    by_cases hsame : stencil = written ∧ place = (p.scope.spot I s [] written args).flat I
    · rcases hsame with ⟨rfl, rfl⟩
      rw [Function.update_self, Function.update_self]
      have hout : ¬stencil = p.output.stencil := fun hout =>
        hlasting.1 hout (List.mem_cons_self ..)
      exact hlast hout (hlasting.2 (hforeign hout)).2
    · have hold : Function.update s.element written (Function.update (s.element written)
            ((p.scope.spot I s [] written args).flat I)
            (I.fit (p.storeBits written) (p.scope.meaning I s [] value))) stencil place
          = s.element stencil place := by
        by_cases hstencil : stencil = written
        · subst hstencil
          rw [Function.update_self, Function.update_of_ne fun hp => hsame ⟨rfl, hp⟩]
        · rw [Function.update_of_ne hstencil]
      rw [hold]
      refine h.element stencil place ⟨fun hout hmem => ?_, fun hlocal => ⟨?_, fun a ha => ?_⟩⟩
      · exact hlasting.1 hout (List.mem_cons_of_mem _ hmem)
      · rcases List.mem_cons.mp (hlasting.2 hlocal).1 with hpair | hmem
        · exact absurd (Prod.mk.inj hpair) hsame
        · exact hmem
      · rcases List.mem_cons.mp ha with rfl | ha
        · exact Bool.eq_false_iff.mpr fun hstores => hsame (storesInto_spot hstores)
        · exact (hlasting.2 hlocal).2 a ha

/-- Under `InOrder` the run in order and the run at once end in the same window. -/
theorem run_inOrder (hI : I.Indexes) {indexWidth : Nat}
    (hwidth : p.writer.indexWidth = .ok indexWidth) (actions : List Action) (k : Nat)
    (before stored : List StoredElement) (earlier : List (String × Nat)) (s t : Signals V)
    (hfollows : p.Follows I σ indexWidth k actions stored)
    (hdriven : ∀ l ∈ p.stencils, ∀ flat < l.shape.extents.prod, ∀ x,
      storedValue? (before ++ stored) l.name flat = some x →
      σ.element l.name flat = I.fit l.shape.elem.bits (I.eval σ x))
    (horder : p.InOrder I s earlier actions)
    (hagree : Scope.Agree s (p.lasting earlier actions) σ)
    (hwindow : t.element p.output.stencil = s.element p.output.stencil) :
    (p.run I (.inOrder I) s actions).element p.output.stencil
      = (p.run I (.atOnce I σ indexWidth) t actions).element p.output.stencil := by
  induction hfollows using Follows.induction_on
    generalizing before earlier s t with
  | nil k => exact hwindow.symm
  | letIn hvalue _ ih =>
      rw [run, run, List.foldl_cons, List.foldl_cons]
      rcases horder with ⟨hsees, hrest⟩
      rw [Scope.meaning_congr hagree _ [] hsees] at hvalue
      exact ih before earlier _ _ hdriven hrest (agree_letIn hagree hvalue) hwindow
  | @output k stencil args value rest stored hout _ _ _ _ ih =>
      rw [run, run, List.foldl_cons, List.foldl_cons]
      rcases horder with ⟨hsees, hargs, ⟨shape, hshape, hinside⟩, hrest⟩
      have hvalue := Scope.meaning_congr hagree value [] hsees
      have hspot := Scope.spot_congr hagree [] stencil args hargs
      have hagree' := agree_provide (I := I) hagree (fun h => absurd hout h)
        fun h => absurd hout h
      refine ih before _ _ _ hdriven hrest hagree' ?_
      rw [storeShape?, if_pos hout, Option.some.injEq] at hshape
      rw [← hshape] at hinside
      -- Both store the same value at the same place.
      have hplace : (Timing.atOnce I σ indexWidth).place (p.scope.spot I s [] stencil args)
          = (p.scope.spot I s [] stencil args).flat I :=
        Timing.atOnce_place hI hwidth hinside
      simp only [step, storePlace, if_pos hout, Timing.atOnce_seen, Timing.inOrder_seen,
        Timing.inOrder_place, hspot, hplace, hvalue]
      rw [hout, Function.update_self, Function.update_self, hwindow]
  | @kept k stencil args value rest flat x more hout hlocal hfixed hx hmore _ ih =>
      rw [run, run, List.foldl_cons, List.foldl_cons]
      rcases horder with ⟨hsees, hargs, ⟨shape, hshape, hinside⟩, hrest⟩
      have hvalue := Scope.meaning_congr hagree value [] hsees
      have hspot := Scope.spot_congr hagree [] stencil args hargs
      rcases exists_local hlocal hshape with ⟨l, hl, rfl, rfl⟩
      rw [hspot] at hfixed
      have hflat : (p.scope.spot I s [] l.name args).flat I = flat := by
        rw [hfixed, Spot.flat]
      rw [hflat] at hinside
      have hbits : p.storeBits l.name = l.shape.elem.bits := by
        rw [storeBits, hshape, Option.map_some, Option.getD_some]
      have hdriven' := hdriven
      rw [List.append_cons] at hdriven'
      -- If this is the last store into the element, it is what the element holds at once.
      have hagree' := agree_provide (I := I) hagree (fun _ => hlocal) fun _ hlast => by
        rw [hflat] at hlast ⊢
        have hvalue' := storedValue?_last before more ⟨l.name, flat, x⟩
          (hmore.notStored rest k more hlast)
        rw [hdriven l hl flat hinside x hvalue', hx, hvalue, hbits]
      refine ih _ _ _ _ hdriven' hrest hagree' ?_
      simp only [step, Function.update_of_ne (Ne.symm hout)]
      exact hwindow

end StagePlan

end

end StencilRtl
