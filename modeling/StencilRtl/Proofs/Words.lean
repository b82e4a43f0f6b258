import Mathlib.Algebra.BigOperators.Group.List.Basic
import Mathlib.Order.Bounds.Basic
import StencilRtl.Proofs.Fallible
import StencilRtl.Width

/-!
# Words and Widths

What checked words and register widths are worth as numbers.

A size that is computed at all is computed exactly, and a register that tells `n`
values apart has room for each of them.

## Theorems

* `Word.product_ok`, `Word.product_returns`: A product of sizes is the product.
* `lt_two_pow_binaryLength`: A number is below the power its digits span.
* `le_two_pow_bitsNeededFor`: There is room for all the values told apart.
* `bitsNeededFor_le`: No more room than they take.
* `bitsToHold_of_lt`: A number below the largest word has a width.
* `isLeast_widths`: Widths are the least ones, and grow with what they are for.
-/

namespace StencilRtl

theorem Word.foldlM_mul_ok {sizes : List Nat} {start n : Nat}
    (h : sizes.foldlM Word.mul start = .ok n) : n = start * sizes.prod := by
  induction sizes generalizing start with
  | nil =>
      rw [List.prod_nil, Nat.mul_one]
      exact (Except.ok.inj h).symm
  | cons size more ih =>
      rw [List.foldlM_cons] at h
      rcases Fallible.bind_ok.mp h with ⟨next, hnext, hmore⟩
      rw [ih hmore, ← (Word.mul_eq_ok.mp hnext).2, List.prod_cons, Nat.mul_assoc]

/-- A product of sizes is computed in words without any loss. -/
theorem Word.product_ok {sizes : List Nat} {n : Nat} (h : Word.product sizes = .ok n) :
    n = sizes.prod := by
  rw [Word.foldlM_mul_ok h, Nat.one_mul]

/-- Sizes that are not zero only make a product grow, so no word on the way is larger than
    the last one. -/
theorem Word.foldlM_mul_returns {sizes : List Nat} {start : Nat} (hpos : ∀ n ∈ sizes, 0 < n)
    (h : start * sizes.prod < Word.limit) :
    sizes.foldlM Word.mul start = .ok (start * sizes.prod) := by
  induction sizes generalizing start with
  | nil =>
      rw [List.prod_nil, Nat.mul_one]
      rfl
  | cons size more ih =>
      rw [List.forall_mem_cons] at hpos
      rw [List.prod_cons, ← Nat.mul_assoc] at h ⊢
      have hgrow := Nat.le_mul_of_pos_right (start * size)
        (List.prod_pos_iff_forall_pos_nat.mpr hpos.2)
      have hmul : Word.mul start size = .ok (start * size) :=
        Word.mul_eq_ok.mpr ⟨Nat.lt_of_le_of_lt hgrow h, rfl⟩
      rw [List.foldlM_cons, hmul]
      exact ih hpos.2 h

/-- A product of sizes is computed if it is a word. -/
theorem Word.product_returns {sizes : List Nat} (hpos : ∀ n ∈ sizes, 0 < n)
    (h : sizes.prod < Word.limit) : Word.product sizes = .ok sizes.prod :=
  (Word.foldlM_mul_returns hpos (by rwa [Nat.one_mul])).trans (by rw [Nat.one_mul])

/-- A number is below the power of two its binary digits span. -/
theorem lt_two_pow_binaryLength (n : Nat) : n < 2 ^ binaryLength n := by
  induction n using binaryLength.induct with
  | case1 => rw [binaryLength, if_pos rfl, Nat.pow_zero]; exact Nat.one_pos
  | case2 n hn ih =>
      rw [binaryLength, if_neg hn, Nat.pow_succ]
      omega

/-- Registers that tell `n` values apart have room for `n` values. -/
theorem le_two_pow_bitsNeededFor (n : Nat) : n ≤ 2 ^ bitsNeededFor n := by
  have hbelow := lt_two_pow_binaryLength (n - 1)
  have hgrow : 2 ^ binaryLength (n - 1) ≤ 2 ^ bitsNeededFor n :=
    Nat.pow_le_pow_right (by omega) (Nat.le_max_left _ _)
  omega

/-- Numbers below a power of two have no more digits than it spans. -/
theorem binaryLength_le {n k : Nat} (h : n < 2 ^ k) : binaryLength n ≤ k := by
  induction k generalizing n with
  | zero =>
      have hnone : binaryLength 0 = 0 := by rw [binaryLength, if_pos rfl]
      exact Nat.le_of_eq (Nat.lt_one_iff.mp h ▸ hnone)
  | succ k ih =>
      rw [binaryLength]
      split
      · exact Nat.zero_le _
      · rw [Nat.pow_succ] at h
        exact Nat.succ_le_succ (ih (by omega))

/-- Registers need no more bits than are enough. -/
theorem bitsNeededFor_le {n k : Nat} (h : n ≤ 2 ^ k) (hk : 0 < k) : bitsNeededFor n ≤ k := by
  have hpos : 0 < 2 ^ k := Nat.two_pow_pos k
  exact Nat.max_le.mpr ⟨binaryLength_le (by omega), hk⟩

/-- A number below the largest word has a width. -/
theorem bitsToHold_of_lt {n : Nat} (h : n + 1 < Word.limit) :
    bitsToHold n = .ok (bitsNeededFor (n + 1)) := by
  have hsucc : Word.add n 1 = .ok (n + 1) := Word.add_eq_ok.mpr ⟨h, rfl⟩
  rw [bitsToHold, hsucc]
  rfl

/-- No register with fewer bits, but for one without any, has room for as many values. -/
theorem isLeast_bitsNeededFor (n : Nat) :
    IsLeast {w | 1 ≤ w ∧ n ≤ 2 ^ w} (bitsNeededFor n) :=
  ⟨⟨bitsNeededFor_pos n, le_two_pow_bitsNeededFor n⟩, fun _ h => bitsNeededFor_le h.2 h.1⟩

/-- More values never need fewer bits. -/
theorem monotone_bitsNeededFor : Monotone bitsNeededFor := by
  intro m n hle
  exact bitsNeededFor_le (hle.trans (le_two_pow_bitsNeededFor n)) (bitsNeededFor_pos n)

/-- More than two values need all the bits: the last value has no room in one bit less. -/
theorem two_pow_pred_lt {n : Nat} (h : 2 < n) : 2 ^ (bitsNeededFor n - 1) < n := by
  by_contra hroom
  by_cases hone : bitsNeededFor n = 1
  · rw [hone] at hroom
    omega
  · have hpos := bitsNeededFor_pos n
    have hless := bitsNeededFor_le (Nat.le_of_not_lt hroom) (by omega)
    omega

/-- Widths are sufficient and minimal, for telling values apart as well as for holding the
    largest one, and they grow with the values. -/
theorem isLeast_widths :
    (∀ n, IsLeast {w | 1 ≤ w ∧ n ≤ 2 ^ w} (bitsNeededFor n) ∧
      (∀ v < n, v < 2 ^ bitsNeededFor n) ∧
      (2 < n → ∃ v < n, ¬v < 2 ^ (bitsNeededFor n - 1))) ∧
    (∀ n, n + 1 < Word.limit → ∃ w, bitsToHold n = .ok w ∧
      IsLeast {w | 1 ≤ w ∧ n < 2 ^ w} w) ∧
    Monotone bitsNeededFor ∧
    ∀ m n v w, m ≤ n → bitsToHold m = .ok v → bitsToHold n = .ok w → v ≤ w := by
  refine ⟨fun n => ⟨isLeast_bitsNeededFor n, fun v hv => ?_, fun hn => ?_⟩, fun n hn => ?_,
    monotone_bitsNeededFor, fun m n v w hle hv hw => ?_⟩
  · exact Nat.lt_of_lt_of_le hv (le_two_pow_bitsNeededFor n)
  · have hlast := two_pow_pred_lt hn
    exact ⟨n - 1, by omega, by omega⟩
  · -- The value `n` is the last one of `n + 1` values.
    exact ⟨_, bitsToHold_of_lt hn, isLeast_bitsNeededFor (n + 1)⟩
  · rcases Fallible.bind_ok.mp hv with ⟨next, hnext, hwidth⟩
    rcases Fallible.bind_ok.mp hw with ⟨next', hnext', hwidth'⟩
    rw [← Except.ok.inj hwidth, ← Except.ok.inj hwidth', ← (Word.add_eq_ok.mp hnext).2,
      ← (Word.add_eq_ok.mp hnext').2]
    exact monotone_bitsNeededFor (Nat.succ_le_succ hle)

end StencilRtl
