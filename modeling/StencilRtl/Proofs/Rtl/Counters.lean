import StencilRtl.Proofs.Rtl.Streams

/-!
# Counters of a Run

What registers count from the reset on.

A register with a reset value starts from it and is updated by its guards from then on.
The counters of a design go up to a last value and start again, one step whenever some
signal is set, and so they hold the number of the cycles in which it was, as far as they
can tell it.

## Main definitions

* `counted`: The number of cycles in which a signal was set.

## Theorems

* `Expr.assigned_plus`, `Expr.assigned_minus`, `Expr.assigned_cycle`: Next values.
* `Module.Runs.register_first`, `Module.Runs.register_later`: A register from the reset on.
* `Module.Runs.cyclicCounter_counts`: What a counter has counted.
-/

namespace StencilRtl

namespace Rtl

variable {Γ : Typing} {s : State} {τ : Nat → State}

/-- The number of the first `t` cycles after the reset in which a signal was set. -/
def counted (τ : Nat → State) (signal : String) (t : Nat) : Nat :=
  ((List.range t).filter fun k => (τ (k + 1)).value signal = 1).length

theorem counted_zero (signal : String) : counted τ signal 0 = 0 := rfl

/-- One more cycle. -/
theorem counted_succ (signal : String) (t : Nat) : counted τ signal (t + 1)
    = counted τ signal t + if (τ (t + 1)).value signal = 1 then 1 else 0 := by
  rw [counted, List.range_succ, List.filter_append, List.length_append, ← counted]
  by_cases h : (τ (t + 1)).value signal = 1
  · rw [if_pos h, List.filter_cons_of_pos (by simpa using h), List.filter_nil,
      List.length_singleton]
  · rw [if_neg h, List.filter_cons_of_neg (by simpa using h), List.filter_nil, List.length_nil]

namespace Expr

/-- A number zero in a target of any width. -/
theorem assigned_zero (width : Nat) : (Expr.number 0).assigned Γ s width = 0 := by
  have hword : ofInt 32 0 = 0 := rfl
  rw [assigned, value, isSigned, hword, extend, Nat.mul_zero,
    decide_eq_false (by decide : ¬2 ^ 32 ≤ 0), Bool.and_false, if_neg Bool.false_ne_true,
    Nat.zero_mod]

/-- A literal in a target of its width. -/
theorem assigned_literal {width k : Nat} (h : k < 2 ^ width) :
    (Expr.literal width k).assigned Γ s width = k := by
  rw [assigned, isSigned, value, extend_false, Nat.mod_mod, Nat.mod_eq_of_lt h]

section

variable {register : String} {width : Nat} (hwidth : Γ.width register = width)

include hwidth

/-- A register plus a constant, in its own size. -/
theorem assigned_plus (k : Nat) :
    (Expr.plus register width k).assigned Γ s width = (s.value register + k) % 2 ^ width := by
  rw [assigned, plus, isSigned, Expr.size, value]
  simp only [Operator.rule, Expr.size, isSigned, Bool.and_self, Operator.compute, value,
    extend_false, hwidth, Nat.max_self, Nat.add_mod_mod, Nat.mod_mod]

/-- A register minus one, as long as it is not zero. -/
theorem assigned_minus (hpos : 0 < s.value register) (hsmall : s.value register < 2 ^ width) :
    (Expr.binary .sub (.ref register) (.literal width 1)).assigned Γ s width
      = s.value register - 1 := by
  have hround : s.value register + (2 ^ width - 1 % 2 ^ width)
      = s.value register - 1 + 2 ^ width := by
    rw [Nat.mod_eq_of_lt (by omega)]
    omega
  rw [assigned, isSigned, Expr.size, value]
  simp only [Operator.rule, Expr.size, isSigned, Bool.and_self, Operator.compute, value,
    extend_false, hwidth, Nat.max_self, Nat.mod_mod, hround, Nat.add_mod_right]
  exact Nat.mod_eq_of_lt (by omega)

/-- The next value of a register that counts from `first` to `last` and starts again. -/
theorem assigned_cycle {first last : Nat} (hfirst : first < 2 ^ width) (hlast : last < 2 ^ width) :
    (Expr.mux (.hasValue register width last) (.literal width first)
        (.plus register width 1)).assigned Γ s width
      = if s.value register = last then first else (s.value register + 1) % 2 ^ width := by
  have hbit : (Expr.hasValue register width last).IsBit Γ s (s.value register = last) :=
    isBit_hasValue hlast
  -- Both branches are as wide as the register, so that nothing is extended.
  have hcond : (Expr.hasValue register width last).value Γ s
      ((Expr.hasValue register width last).size Γ) (Expr.hasValue register width last).isSigned ≠ 0
        ↔ s.value register = last := hbit.own_ne_zero
  have hplus : (Expr.plus register width 1).value Γ s width false
      = (s.value register + 1) % 2 ^ width := by
    rw [plus, value]
    simp only [Operator.rule, Operator.compute, value, extend_false, Nat.add_mod_mod]
  have hsize : (Expr.mux (.hasValue register width last) (.literal width first)
      (.plus register width 1)).size Γ = width := by
    rw [Expr.size, Expr.size, plus, Expr.size]
    simp only [Operator.rule, Expr.size, hwidth, Nat.max_self]
  have hsigned : (Expr.mux (.hasValue register width last) (.literal width first)
      (.plus register width 1)).isSigned = false := by
    rw [isSigned, isSigned, Bool.false_and]
  rw [assigned, hsize, hsigned, Nat.max_self, value]
  by_cases h : s.value register = last
  · rw [if_pos (hcond.mpr h), if_pos h, value, extend_false, Nat.mod_mod, Nat.mod_eq_of_lt hfirst]
  · rw [if_neg (mt hcond.mp h), if_neg h, hplus, Nat.mod_mod]

/-- The same for one that starts from zero. -/
theorem assigned_step {last : Nat} (hlast : last < 2 ^ width) :
    (Expr.mux (.hasValue register width last) (.literal width 0)
        (.plus register width 1)).assigned Γ s width
      = if s.value register = last then 0 else (s.value register + 1) % 2 ^ width :=
  assigned_cycle hwidth (Nat.two_pow_pos width) hlast

end

end Expr

namespace Module.Runs

variable {library : String → Option Module} {m : Module}

/-- The reset is no guard any more after the first cycle. -/
theorem reset_not_held (h : m.Runs library Γ τ) (hreset : FromReset τ)
    (hclear : (reset, 1) ∈ m.signals) (t : Nat) :
    ¬(Expr.ref reset).own Γ (τ (t + 1)) ≠ 0 := by
  rw [(h.isBit hclear (t + 1)).own_ne_zero, hreset.later]
  decide

/-- The reset is held in the first cycle. -/
theorem reset_held (h : m.Runs library Γ τ) (hreset : FromReset τ)
    (hclear : (reset, 1) ∈ m.signals) : (Expr.ref reset).own Γ (τ 0) ≠ 0 :=
  (h.isBit hclear 0).own_ne_zero.mpr hreset.first

section

variable (h : m.Runs library Γ τ) (hreset : FromReset τ) (hclear : (reset, 1) ∈ m.signals)
  {register : String} {initial : Expr} {updates : List (Expr × Expr)} {items : List Item}
  (hbody : Body.register register initial updates = .ok items) (hsub : ∀ i ∈ items, i ∈ m.body)

include h hreset hclear hbody hsub

/-- A register starts from its reset value. -/
theorem register_first : (τ 1).value register = initial.assigned Γ (τ 0) (Γ.width register) := by
  rw [h.register_next hbody hsub, State.firstHolding, if_pos (h.reset_held hreset hclear)]

/-- From then on it is updated by its guards. -/
theorem register_later (t : Nat) :
    (τ (t + 2)).value register = (τ (t + 1)).firstHolding Γ register updates := by
  rw [h.register_next hbody hsub, State.firstHolding, if_neg (h.reset_not_held hreset hclear t)]

end

/-- A cyclic counter holds the number of cycles in which it had to move since the
    reset, counted up to its last value and started again. -/
theorem cyclicCounter_counts (h : m.Runs library Γ τ) (hreset : FromReset τ)
    (hclear : (reset, 1) ∈ m.signals) {register move : String} {width last : Nat}
    {items : List Item}
    (hbody : Body.register register (.number 0) [(.ref move,
      .mux (.hasValue register width last) (.literal width 0) (.plus register width 1))]
        = .ok items)
    (hsub : ∀ i ∈ items, i ∈ m.body) (hregister : (register, width) ∈ m.signals)
    (hmove : (move, 1) ∈ m.signals) (hlast : last < 2 ^ width) {n : Nat → Nat}
    (hzero : n 0 = 0)
    (hcount : ∀ t, n (t + 1) = n t + if (τ (t + 1)).value move = 1 then 1 else 0)
    (t : Nat) : (τ (t + 1)).value register = n t % (last + 1) := by
  have hwidth := h.width_eq hregister
  induction t with
  | zero =>
      rw [h.register_first hreset hclear hbody hsub, Expr.assigned_zero, hzero, Nat.zero_mod]
  | succ t ih =>
      have hmoved := (h.isBit hmove (t + 1)).own_ne_zero
      rw [h.register_later hreset hclear hbody hsub, State.firstHolding, hcount]
      by_cases hmoves : (τ (t + 1)).value move = 1
      · rw [if_pos (hmoved.mpr hmoves), if_pos hmoves, hwidth, Expr.assigned_step hwidth hlast, ih]
        have hbelow : n t % (last + 1) < last + 1 := Nat.mod_lt _ (by omega)
        have hsucc := (Nat.mod_add_mod (n t) (last + 1) 1).symm
        by_cases hend : n t % (last + 1) = last
        · rw [if_pos hend, hsucc, hend, Nat.mod_self]
        · -- Below its last value a counter does not overflow.
          have hfits : n t % (last + 1) + 1 < 2 ^ width := by omega
          have hround : n t % (last + 1) + 1 < last + 1 := by omega
          rw [if_neg hend, hsucc, Nat.mod_eq_of_lt hfits, Nat.mod_eq_of_lt hround]
      · rw [if_neg hmoves, Nat.add_zero (n t), if_neg (mt hmoved.mp hmoves), State.firstHolding, ih]

end Module.Runs

end Rtl

end StencilRtl
