import StencilRtl.Hardware.Counters
import StencilRtl.Proofs.Rtl.Counters
import StencilRtl.Proofs.Scan.Positions

/-!
# Counters That Scan

The registers of a scan move as its positions do.

A counter is written with literals, and what a literal is worth depends on its width.
`Counts` is what a counter has to be built with to follow a step and a largest position:
the literals it is compared with and moved by keep their values, and the register has
room for every position. Nothing is asked of the other counters.

A move of a vector of counters goes through it once, carrying whether all counters
before have returned. The registers move all at the same time, each one looking at the
ones before it. That both come to the same is an induction along the counters, in which
the conditions gathered so far stand for the carry.

## Main definitions

* `ScanCounter.Counts`: A counter is built for a step and a largest position.
* `ScanCounter.held`: The position some counters hold.

## Theorems

* `counts_of_ofDimensions`, `ofDimensions_returns`: Counters are built for their dimensions.
* `held_of_moves`: The registers move as the positions do.
* `isBit_allAtLast`: All counters return just if the scan ends.
-/

namespace StencilRtl

namespace ScanCounter

open Rtl

/-- A counter is built for a step and a largest position. -/
structure Counts (c : ScanCounter) (bound : Scan.Bound) : Prop where
  step_pos : 0 < bound.1
  step_eq : c.step = bound.1
  last_eq : c.lastFrom = bound.2 + 1 - bound.1
  room : bound.2 < 2 ^ c.width
  width_le : c.width ≤ c.stepWidth
  step_room : c.step < 2 ^ c.stepWidth

/-- The position some counters hold. -/
def held (counters : List ScanCounter) (s : State) : List Nat :=
  counters.map fun c => s.value c.register

variable {Γ : Typing} {s s' : State} {c : ScanCounter} {counters : List ScanCounter}
  {bound : Scan.Bound} {bounds : List Scan.Bound}

/-- A counter is at its last position if the next step passes the largest one. -/
theorem isBit_atLast (h : c.Counts bound) :
    c.atLast.IsBit Γ s (bound.2 < s.value c.register + bound.1) := by
  have hstep := h.step_pos
  have hroom := h.room
  have hlast : c.lastFrom < 2 ^ c.width := by rw [h.last_eq]; omega
  refine (Expr.isBit_ge hlast).congr ?_
  rw [h.last_eq]
  omega

/-- Where a counter goes with the next step. -/
theorem assigned_next (h : c.Counts bound) (hwidth : Γ.width c.register = c.width) :
    c.next.assigned Γ s c.width
      = if bound.2 < s.value c.register + bound.1 then 0 else s.value c.register + bound.1 := by
  have hlast := isBit_atLast (Γ := Γ) (s := s) h
  have hcond : c.atLast.value Γ s (c.atLast.size Γ) c.atLast.isSigned ≠ 0
      ↔ bound.2 < s.value c.register + bound.1 := hlast.own_ne_zero
  have hsize : c.next.size Γ = c.stepWidth := by
    rw [next, Expr.size, Expr.size, Expr.size]
    simp only [Operator.rule, Expr.size, hwidth, Nat.max_eq_right h.width_le]
  have hsigned : c.next.isSigned = false := by
    rw [next, Expr.isSigned, Expr.isSigned, Bool.false_and]
  have hroom := h.room
  -- The sum is formed in the wider of the two widths, where it cannot overflow.
  have hwide : 2 ^ c.width ≤ 2 ^ c.stepWidth := Nat.pow_le_pow_right (by omega) h.width_le
  rw [Expr.assigned, hsize, hsigned, Nat.max_eq_right h.width_le, next, Expr.value]
  by_cases hpass : bound.2 < s.value c.register + bound.1
  · rw [if_pos (hcond.mpr hpass), if_pos hpass, Expr.value, Expr.extend_false, Nat.zero_mod,
      Nat.zero_mod]
  · rw [if_neg (mt hcond.mp hpass), if_neg hpass, Expr.value]
    have hsum : s.value c.register + c.step < 2 ^ c.width := by rw [h.step_eq]; omega
    simp only [Operator.rule, Operator.compute, Expr.value, Expr.extend_false]
    rw [Nat.mod_eq_of_lt h.step_room, Nat.mod_eq_of_lt (Nat.lt_of_lt_of_le hsum hwide),
      Nat.mod_eq_of_lt hsum, h.step_eq]

/-- Counters that could be made are built for their dimensions. -/
theorem counts_of_ofDimensions {d : Nat} {dims : List (Nat × Nat × Nat)}
    (h : ofDimensions d dims = .ok counters) :
    counters.map (·.register) = (List.range' d dims.length).map (fun n => s!"ctr_{n}")
      ∧ List.Forall₂ (fun c (dim : Nat × Nat × Nat) => c.width = dim.1 ∧
          ∀ bound : Scan.Bound, 0 < bound.1 → bound.1 = dim.2.1 → bound.2 < 2 ^ dim.1 →
            dim.2.2 = bound.2 + 1 - bound.1 → c.Counts bound) counters dims := by
  induction dims generalizing d counters with
  | nil =>
      rw [← Except.ok.inj h]
      exact ⟨rfl, .nil⟩
  | cons dim rest ih =>
      rcases dim with ⟨width, step, last⟩
      rw [ofDimensions, Fallible.bind_ok] at h
      rcases h with ⟨first, hfirst, h⟩
      rcases Fallible.bind_ok.mp h with ⟨more, hmore, h⟩
      rcases Fallible.bind_ok.mp hfirst with ⟨stepBits, hbits, hfirst⟩
      rcases Fallible.bind_ok.mp hbits with ⟨n, hn, hbits⟩
      have hn := (Word.add_eq_ok.mp hn).2
      rcases ih hmore with ⟨hregisters, hcounts⟩
      rw [← Except.ok.inj h, ← Except.ok.inj hfirst]
      refine ⟨?_, .cons ⟨rfl, fun bound hpos hstep hroom hlast => ?_⟩ hcounts⟩
      · rw [List.map_cons, hregisters, List.length_cons, List.range'_succ, List.map_cons]
      · have hholds : step < 2 ^ max width stepBits := by
          -- `n` is one above the step, and the register is wide enough for all numbers below.
          have hbelow := le_two_pow_bitsNeededFor n
          have hwide : 2 ^ stepBits ≤ 2 ^ max width stepBits :=
            Nat.pow_le_pow_right (by omega) (Nat.le_max_right _ _)
          rw [← Except.ok.inj hbits] at hwide ⊢
          omega
        exact ⟨hpos, hstep.symm, hlast, hroom, Nat.le_max_left _ _, hholds⟩

/-- Counters can be made for all steps that have a width. -/
theorem ofDimensions_returns {d : Nat} {dims : List (Nat × Nat × Nat)}
    (h : ∀ dim ∈ dims, dim.2.1 + 1 < Word.limit) :
    ∃ counters, ofDimensions d dims = .ok counters := by
  induction dims generalizing d with
  | nil => exact ⟨[], rfl⟩
  | cons dim rest ih =>
      rcases dim with ⟨width, step, last⟩
      rw [List.forall_mem_cons] at h
      rcases ih (d := d + 1) h.2 with ⟨more, hmore⟩
      have hfirst : ∃ c, ofDimension d width step last = .ok c :=
        ⟨_, Fallible.bind_ok.mpr ⟨_, bitsToHold_of_lt h.1, rfl⟩⟩
      rcases hfirst with ⟨c, hc⟩
      refine ⟨c :: more, ?_⟩
      rw [ofDimensions, hc, hmore]
      rfl

/-- Every counter moves. -/
theorem map_fst_moves (before : List Rtl.Expr) (counters : List ScanCounter) :
    (moves before counters).map Prod.fst = counters := by
  induction counters generalizing before with
  | nil => rfl
  | cons c rest ih => rw [moves, List.map_cons, ih]

section

variable (hcounts : List.Forall₂ Counts counters bounds)

include hcounts

/-- The conditions under which all counters return. -/
theorem isBits_atLast : List.Forall₂ (fun e P => e.IsBit Γ s P) (counters.map atLast)
    (List.zipWith (fun c bound => bound.2 < s.value c.register + bound.1) counters bounds) := by
  induction hcounts with
  | nil => exact .nil
  | cons hhead _ ih => exact .cons (isBit_atLast hhead) ih

/-- All counters return just if a move ends the scan. -/
theorem isBit_allAtLast {answer : Bool × List Nat}
    (hstep : stepCounters bounds (held counters s) = .ok answer) :
    (allAtLast counters).IsBit Γ s (answer.1 = true) := by
  refine (Expr.isBit_all (isBits_atLast hcounts)).congr ?_
  induction hcounts generalizing answer with
  | nil => exact iff_of_true (fun P hP => absurd hP List.not_mem_nil) (by
      rw [← Except.ok.inj hstep])
  | @cons c bound rest restBounds hhead _ ih =>
      rw [held, List.map_cons, stepCounters, Fallible.bind_ok] at hstep
      rcases hstep with ⟨next, hnext, hstep⟩
      rw [← (Word.add_eq_ok.mp hnext).2] at hstep
      rw [List.zipWith_cons_cons, List.forall_mem_cons]
      -- The step goes on to the next counter only if this one has returned.
      by_cases hpass : bound.2 < s.value c.register + bound.1
      · rw [if_pos hpass, Fallible.bind_ok] at hstep
        rcases hstep with ⟨tail, htail, hstep⟩
        rw [ih htail, ← Except.ok.inj hstep]
        exact ⟨And.right, fun hwrapped => ⟨hpass, hwrapped⟩⟩
      · rw [if_neg hpass] at hstep
        rw [← Except.ok.inj hstep]
        exact iff_of_false (fun hall => hpass hall.1) Bool.false_ne_true

variable {before : List Rtl.Expr} {Ps : List Prop}
  (hbefore : List.Forall₂ (fun e P => e.IsBit Γ s P) before Ps)
  (hnext : ∀ move ∈ moves before counters, s'.value move.1.register
    = if move.2.own Γ s ≠ 0 then move.1.next.assigned Γ s move.1.width
      else s.value move.1.register)

include hbefore hnext

/-- Counters after one that does not return stay. -/
theorem held_of_not (hnot : ¬∀ P ∈ Ps, P) : held counters s' = held counters s := by
  induction hcounts generalizing before Ps with
  | nil => rfl
  | @cons c bound rest restBounds hhead _ ih =>
      rw [moves, List.forall_mem_cons] at hnext
      have hfirst := hnext.1
      rw [if_neg (mt (Expr.isBit_all hbefore).own_ne_zero.mp hnot)] at hfirst
      have hrest := ih (List.rel_append hbefore (.cons (isBit_atLast hhead) .nil)) hnext.2
        fun hall => hnot fun P hP => hall P (List.mem_append_left _ hP)
      rw [held, List.map_cons, hfirst]
      exact congrArg _ hrest

/-- Registers that move as they are told to go where a move of the scan goes. -/
theorem held_of_moves (hall : ∀ P ∈ Ps, P)
    (hwidth : ∀ c ∈ counters, Γ.width c.register = c.width)
    {answer : Bool × List Nat} (hstep : stepCounters bounds (held counters s) = .ok answer) :
    held counters s' = answer.2 := by
  induction hcounts generalizing before Ps answer with
  | nil =>
      rw [← Except.ok.inj hstep]
      rfl
  | @cons c bound rest restBounds hhead htail ih =>
      rw [moves, List.forall_mem_cons] at hnext
      have hfirst := hnext.1
      rw [if_pos ((Expr.isBit_all hbefore).own_ne_zero.mpr hall),
        assigned_next hhead (hwidth c (List.mem_cons_self ..))] at hfirst
      have hmore := List.rel_append hbefore (.cons (isBit_atLast (Γ := Γ) (s := s) hhead) .nil)
      rw [held, List.map_cons, stepCounters, Fallible.bind_ok] at hstep
      rcases hstep with ⟨next, hadd, hstep⟩
      rw [← (Word.add_eq_ok.mp hadd).2] at hstep
      rw [held, List.map_cons, hfirst]
      by_cases hpass : bound.2 < s.value c.register + bound.1
      · -- The counter returns, so the ones after it move.
        rw [if_pos hpass, Fallible.bind_ok] at hstep
        rcases hstep with ⟨moved, hmoved, hstep⟩
        have hrest := ih hmore hnext.2
          (List.forall_mem_append.mpr ⟨hall, List.forall_mem_singleton.mpr hpass⟩)
          (fun c' hc' => hwidth c' (List.mem_cons_of_mem _ hc')) hmoved
        rw [if_pos hpass, ← Except.ok.inj hstep]
        exact congrArg _ hrest
      · -- It goes on, so the ones after it stay.
        rw [if_neg hpass] at hstep
        have hrest := held_of_not htail hmore hnext.2 fun hall' =>
          hpass (hall' _ (List.mem_append_right _ (List.mem_singleton_self _)))
        rw [if_neg hpass, ← Except.ok.inj hstep]
        exact congrArg _ hrest

end

end ScanCounter

end StencilRtl
