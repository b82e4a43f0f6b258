import StencilRtl.Hardware.LoopControl
import StencilRtl.Proofs.LoopControl.Run
import StencilRtl.Proofs.Rtl.Counters
import StencilRtl.Proofs.Rtl.Literals

/-!
# Nests of Counters in Hardware

The registers of a nest of loops move as the nest does.

A move of a nest is told from the inside out: the variables inside move first and say whether
they have returned, and only then the one outside looks at what it holds. The registers have
no order. Each of them is moved by a process of its own, in the same cycle as all others, and
looks at the values that the registers inside it have before they move. That both come to the
same is an induction along the nest. What the variables inside report is what the outer
register sees of them: they all hold their last values.

A start goes before everything else, so a nest is back at its first values in the cycle after
it, wherever it has been.

## Main definitions

* `LoopCounter.Counts`: A counter is built for a variable.
* `LoopCounter.held`: The values some counters hold.

## Theorems

* `LoopVar.counter_ok`: Every variable that runs has a counter.
* `LoopCounter.isBit_allAtLast`: The check of a nest is what the hardware looks at.
* `LoopCounter.held_moved`: The registers of a nest move as the nest.
* `LoopCounter.held_started`, `LoopCounter.held_stays`: A start, and a cycle without a move.
* `LoopCounter.fits_nest`: Its literals are not cut.
-/

namespace StencilRtl

open Rtl

namespace LoopCounter

/-- A counter is built for a variable, and its width has room for all values. -/
structure Counts (v : LoopVar) (c : LoopCounter) : Prop where
  register_eq : c.register = v.register
  width_eq : v.width = .ok c.width
  first_eq : c.first = v.min
  last_eq : v.max = .ok c.last
  first_le : c.first ≤ c.last
  room : c.last < 2 ^ c.width
  width_pos : 0 < c.width

end LoopCounter

namespace LoopVar

/-- A variable that runs has a width. -/
theorem Runs.width_eq {v : LoopVar} (hv : v.Runs) :
    v.width = .ok (bitsNeededFor (v.min + v.extent - 1 + 1)) := by
  have hlimit := hv.lt_limit
  have hpos := hv.1
  rw [width, hv.max_eq]
  exact bitsToHold_of_lt (by omega)

/-- Every variable that runs has a counter. -/
theorem counter_ok {v : LoopVar} (hv : v.Runs) :
    ∃ c, v.counter = .ok c ∧ LoopCounter.Counts v c := by
  have hmax := hv.max_eq
  have hwidth := hv.width_eq
  have hpos := hv.1
  have hroom := le_two_pow_bitsNeededFor (v.min + v.extent - 1 + 1)
  refine ⟨⟨v.register, bitsNeededFor (v.min + v.extent - 1 + 1), v.min, v.min + v.extent - 1⟩, ?_,
    rfl, hwidth, rfl, hmax, ?_, hroom, bitsNeededFor_pos _⟩
  · rw [counter, hwidth, hmax]
    rfl
  · exact (by omega : v.min ≤ v.min + v.extent - 1)

/-- So has every nest of them. -/
theorem counters_ok {vars : List LoopVar} (hv : ∀ v ∈ vars, v.Runs) :
    ∃ counters, vars.mapM counter = .ok counters ∧ List.Forall₂ LoopCounter.Counts vars counters := by
  induction vars with
  | nil => exact ⟨[], rfl, .nil⟩
  | cons v rest ih =>
      rw [List.forall_mem_cons] at hv
      rcases counter_ok hv.1 with ⟨c, hc, hcounts⟩
      rcases ih hv.2 with ⟨more, hmore, hrest⟩
      refine ⟨c :: more, ?_, .cons hcounts hrest⟩
      rw [List.mapM_cons, hc, hmore]
      rfl

end LoopVar

namespace LoopCounter

/-- The values some counters hold. -/
def held (counters : List LoopCounter) (s : State) : List Nat :=
  counters.map fun c => s.value c.register

theorem isBit_atLast {v : LoopVar} {c : LoopCounter} (h : Counts v c) {Γ : Typing} {s : State} :
    c.atLast.IsBit Γ s (s.value c.register = c.last) := Expr.isBit_hasValue h.room

variable {vars : List LoopVar} {counters : List LoopCounter} {Γ : Typing} {s : State}

section

variable (hcounts : List.Forall₂ Counts vars counters)

include hcounts

theorem held_eq (s : State) : held counters s = vars.map fun v => s.value v.register :=
  (map_eq_of_forall₂ hcounts fun v c h => by rw [h.register_eq])

theorem isBits_atLast : List.Forall₂ (fun e P => e.IsBit Γ s P) (counters.map atLast)
    (counters.map fun c => s.value c.register = c.last) := by
  induction hcounts with
  | nil => exact .nil
  | cons hhead _ ih => exact .cons (isBit_atLast hhead) ih

/-- The check of a nest is what the hardware looks at. -/
theorem isBit_allAtLast {b : Bool} (h : LoopState.allAtMax vars (held counters s) = .ok b) :
    (allAtLast counters).IsBit Γ s (b = true) := by
  refine (Expr.isBit_all (isBits_atLast hcounts)).congr ?_
  have hlength : (held counters s).length = vars.length := by
    rw [held, List.length_map, hcounts.length_eq]
  rw [LoopState.forall₂_of_allAtMax hlength h, held, List.forall₂_map_right_iff]
  clear h hlength
  induction hcounts with
  | nil => exact iff_of_true (fun P hP => absurd hP List.not_mem_nil) .nil
  | cons hhead _ ih =>
      rw [List.map_cons, List.forall_mem_cons, List.forall₂_cons, hhead.last_eq, Except.ok.injEq]
      exact and_congr eq_comm ih

end

/-- A counter has room for its last value, so the comparison with it is not cut. -/
theorem fits_atLast (hcounts : List.Forall₂ Counts vars counters) :
    ∀ e ∈ counters.map atLast, e.Fits := by
  intro e he
  rcases List.mem_map.mp he with ⟨c, hc, rfl⟩
  rcases exists_of_forall₂ hcounts.flip hc with ⟨v, _, hcount⟩
  exact Expr.fits_hasValue hcount.room

/-- The literals of a nest have room for the values of its variables. -/
theorem fits_nest (hcounts : List.Forall₂ Counts vars counters) {advance : Rtl.Expr}
    (hadvance : advance.Fits) : ∀ part ∈ nest advance counters, part.Fits := by
  induction hcounts with
  | nil => exact fun part hpart => absurd hpart List.not_mem_nil
  | @cons v c vars inner hhead htail ih =>
      have hfirst : c.first < 2 ^ c.width := Nat.lt_of_le_of_lt hhead.first_le hhead.room
      have hone : 1 < 2 ^ c.width := Nat.one_lt_two_pow (Nat.ne_of_gt hhead.width_pos)
      rw [nest, List.forall_mem_cons]
      refine ⟨Body.fits_register _ hfirst (List.forall_mem_cons.mpr ⟨⟨trivial, hfirst⟩,
        List.forall_mem_singleton.mpr ⟨?_, ?_⟩⟩), ih⟩
      · exact Expr.fits_all (List.forall_mem_cons.mpr ⟨hadvance, fits_atLast htail⟩)
      · exact ⟨Expr.fits_hasValue hhead.room, hfirst, Expr.fits_plus hone⟩

section

variable {library : String → Option Module} {m : Module} {τ : Nat → State} {advance : Rtl.Expr}
  {A : Prop} (hcounts : List.Forall₂ Counts vars counters)
  (hdeclared : ∀ c ∈ counters, (c.register, c.width) ∈ m.signals)
  (hparts : ∀ part ∈ nest advance counters, ∃ items, part = .ok items ∧ ∀ i ∈ items, i ∈ m.body)
  (h : m.Runs library Γ τ) (hreset : FromReset τ) (hclear : (reset, 1) ∈ m.signals)

include hcounts hdeclared hparts h hreset hclear

/-- After the reset a nest has its first values. -/
theorem held_first : held counters (τ 1) = vars.map LoopVar.min := by
  induction hcounts with
  | nil => rfl
  | @cons v c _ inner hhead _ ih =>
      rw [nest, List.forall_mem_cons] at hparts
      rw [List.forall_mem_cons] at hdeclared
      rcases hparts.1 with ⟨items, hitems, hsub⟩
      have hfirst : c.first < 2 ^ c.width := Nat.lt_of_le_of_lt hhead.first_le hhead.room
      have hinner := ih hdeclared.2 hparts.2
      rw [held, List.map_cons, List.map_cons, h.register_first hreset hclear hitems hsub,
        h.width_eq hdeclared.1, initial, Expr.assigned_literal hfirst, hhead.first_eq]
      exact congrArg _ hinner

section

variable (hstart : (startPort, 1) ∈ m.signals) {t : Nat}

include hstart

/-- A start brings a nest back to its first values. -/
theorem held_started (hstarted : (τ (t + 1)).value startPort = 1) :
    held counters (τ (t + 1 + 1)) = vars.map LoopVar.min := by
  induction hcounts with
  | nil => rfl
  | @cons v c _ inner hhead _ ih =>
      rw [nest, List.forall_mem_cons] at hparts
      rw [List.forall_mem_cons] at hdeclared
      rcases hparts.1 with ⟨items, hitems, hsub⟩
      have hfirst : c.first < 2 ^ c.width := Nat.lt_of_le_of_lt hhead.first_le hhead.room
      have hinner := ih hdeclared.2 hparts.2
      rw [held, List.map_cons, List.map_cons, h.register_later hreset hclear hitems hsub,
        State.firstHolding, if_pos ((h.isBit hstart (t + 1)).own_ne_zero.mpr hstarted),
        h.width_eq hdeclared.1, initial, Expr.assigned_literal hfirst, hhead.first_eq]
      exact congrArg _ hinner

variable (hquiet : (τ (t + 1)).value startPort ≠ 1) (hadvance : advance.IsBit Γ (τ (t + 1)) A)

include hquiet hadvance

/-- Without an advance a nest stays where it is. -/
theorem held_stays (hnone : ¬A) : held counters (τ (t + 1 + 1)) = held counters (τ (t + 1)) := by
  induction hcounts with
  | nil => rfl
  | @cons v c _ inner hhead htail ih =>
      rw [nest, List.forall_mem_cons] at hparts
      rw [List.forall_mem_cons] at hdeclared
      rcases hparts.1 with ⟨items, hitems, hsub⟩
      have hmove := Expr.isBit_all (.cons hadvance (isBits_atLast (s := τ (t + 1)) htail))
      have hstays := mt hmove.own_ne_zero.mp fun hall => hnone (hall A (List.mem_cons_self ..))
      have hinner := ih hdeclared.2 hparts.2
      rw [held, held, List.map_cons, List.map_cons,
        h.register_later hreset hclear hitems hsub, State.firstHolding,
        if_neg (mt (h.isBit hstart (t + 1)).own_ne_zero.mp hquiet), State.firstHolding,
        if_neg hstays, State.firstHolding]
      exact congrArg _ hinner

variable (hbelow : ∀ c ∈ counters, (τ (t + 1)).value c.register ≤ c.last)

include hbelow

/-- With an advance the registers go where a move of the nest goes, and it carries out of the
    nest just if they all hold their last values. -/
theorem held_moved (hall : A) {carry : Bool} {next : List Nat}
    (hstep : LoopState.stepNest vars (held counters (τ (t + 1))) = .ok (carry, next)) :
    held counters (τ (t + 1 + 1)) = next
      ∧ (carry = true ↔ ∀ P ∈ counters.map (fun c => (τ (t + 1)).value c.register = c.last), P) := by
  -- Induction along the nest, the variables inside first: their carry is what the outer
  -- register looks for.
  induction hcounts generalizing carry next with
  | nil =>
      rcases Prod.mk.inj (Except.ok.inj hstep) with ⟨rfl, rfl⟩
      exact ⟨rfl, iff_of_true rfl fun P hP => absurd hP List.not_mem_nil⟩
  | @cons v c vars inner hhead htail ih =>
      rw [nest, List.forall_mem_cons] at hparts
      rw [List.forall_mem_cons] at hdeclared hbelow
      rcases hparts.1 with ⟨items, hitems, hsub⟩
      have hfirst : c.first < 2 ^ c.width := Nat.lt_of_le_of_lt hhead.first_le hhead.room
      have hmove := Expr.isBit_all (.cons hadvance (isBits_atLast (s := τ (t + 1)) htail))
      rw [held, List.map_cons, LoopState.stepNest, Fallible.bind_ok] at hstep
      rcases hstep with ⟨⟨innerCarry, innerNext⟩, hinnerStep, hstep⟩
      rcases ih hdeclared.2 hparts.2 hbelow.2 hinnerStep with ⟨hheld, hcarry⟩
      have hregister : (τ (t + 1 + 1)).value c.register
          = if innerCarry = true then
              if (τ (t + 1)).value c.register = c.last then c.first
              else ((τ (t + 1)).value c.register + 1) % 2 ^ c.width
            else (τ (t + 1)).value c.register := by
        rw [h.register_later hreset hclear hitems hsub, State.firstHolding,
          if_neg (mt (h.isBit hstart (t + 1)).own_ne_zero.mp hquiet), State.firstHolding,
          State.firstHolding, h.width_eq hdeclared.1, initial, atLast,
          Expr.assigned_cycle (h.width_eq hdeclared.1) hfirst hhead.room]
        refine if_congr (hmove.own_ne_zero.trans ?_) rfl rfl
        rw [List.forall_mem_cons, hcarry]
        exact and_iff_right hall
      rw [held, List.map_cons, List.map_cons, List.forall_mem_cons, hregister, ← hcarry]
      cases innerCarry with
      | false =>
          rcases Prod.mk.inj (Except.ok.inj hstep) with ⟨rfl, rfl⟩
          rw [if_neg Bool.false_ne_true]
          exact ⟨congrArg _ hheld, iff_of_false Bool.false_ne_true fun hc => Bool.false_ne_true hc.2⟩
      | true =>
          rcases Fallible.bind_ok.mp hstep with ⟨last, hlast, hstep⟩
          rcases Except.ok.inj (hhead.last_eq.symm.trans hlast) with rfl
          rw [if_pos rfl]
          by_cases hends : (τ (t + 1)).value c.register = c.last
          · -- The variable returns and passes the carry on.
            rw [if_pos hends] at hstep ⊢
            rcases Prod.mk.inj (Except.ok.inj hstep) with ⟨rfl, rfl⟩
            rw [hhead.first_eq]
            exact ⟨congrArg _ hheld, iff_of_true rfl ⟨hends, rfl⟩⟩
          · -- It goes on. It is below its last value, so the sum is not cut.
            have hroom := hhead.room
            have hbelow := hbelow.1
            rw [if_neg hends] at hstep ⊢
            rcases Fallible.bind_ok.mp hstep with ⟨sum, hsum, hstep⟩
            rcases Prod.mk.inj (Except.ok.inj hstep) with ⟨rfl, rfl⟩
            rw [Nat.mod_eq_of_lt (by omega), (Word.add_eq_ok.mp hsum).2]
            exact ⟨congrArg _ hheld, iff_of_false Bool.false_ne_true fun hc => hends hc.1⟩

end

end

end LoopCounter

end StencilRtl
