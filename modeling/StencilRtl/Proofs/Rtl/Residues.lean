import Mathlib.Data.Int.ModEq
import Mathlib.Tactic.Positivity
import Mathlib.Tactic.Zify
import StencilRtl.Proofs.Rtl.Semantics

/-!
# Words and the Numbers They Spell

What operators do to words that spell integers.

A word of some width spells an integer as far as its width allows, that is, it is the remainder
of the integer. A sum, a difference and a product of such words is the word of the sum, the
difference and the product, whatever the integers are, and a word that is cut to a smaller width
is the word of the same integer there. So nothing is lost as long as no operator looks at a word
as a number.

Comparisons do. Read with a sign, a word gives its integer back if that is in the range of its
width. Read without one it gives the remainder.

## Theorems

* `ofInt_of_modEq`, `ofInt_bmod`: Integers with one remainder have one word.
* `toSigned_ofInt`: A word read with its sign.
* `Operator.compute_add`, `Operator.compute_sub`, `Operator.compute_mul`: Arithmetic on words.
-/

namespace StencilRtl

namespace Rtl

variable {width : Nat} {i j : Int}

theorem cast_ofInt (width : Nat) (i : Int) : (ofInt width i : Int) = i % 2 ^ width :=
  Int.toNat_of_nonneg (Int.emod_nonneg i (by positivity))

theorem ofInt_lt (width : Nat) (i : Int) : ofInt width i < 2 ^ width := by
  have hlt : i % 2 ^ width < 2 ^ width := Int.emod_lt_of_pos i (by positivity)
  rw [← cast_ofInt] at hlt
  exact_mod_cast hlt

/-- Integers with one remainder have one word. -/
theorem ofInt_of_modEq (h : i ≡ j [ZMOD 2 ^ width]) : ofInt width i = ofInt width j :=
  congrArg Int.toNat h

theorem ofInt_natCast (width v : Nat) : ofInt width v = v % 2 ^ width := by
  rw [ofInt, ← Int.toNat_natCast (v % 2 ^ width)]
  push_cast
  rfl

/-- A number that is a word is its own word. -/
theorem ofInt_of_lt {v : Nat} (h : v < 2 ^ width) : ofInt width v = v := by
  rw [ofInt_natCast, Nat.mod_eq_of_lt h]

/-- A word of no more bits than an integer is cut to is the word of that integer. -/
theorem ofInt_bmod {bits : Nat} (h : width ≤ bits) (i : Int) :
    ofInt width (i.bmod (2 ^ bits)) = ofInt width i := by
  have hmod : i.bmod (2 ^ bits) ≡ i [ZMOD 2 ^ bits] := by
    have hsame := Int.bmod_emod (x := i) (m := 2 ^ bits)
    rwa [Nat.cast_pow, Nat.cast_ofNat] at hsame
  exact ofInt_of_modEq (hmod.of_dvd (pow_dvd_pow 2 h))

/-- A word read with its sign spells the integer it was made of, if that is in range. -/
theorem toSigned_ofInt (hlow : -2 ^ width ≤ i) (hhigh : i < 2 ^ width) :
    toSigned (width + 1) (ofInt (width + 1) i) = i := by
  have hcast := cast_ofInt (width + 1) i
  have hdouble : (2 : Int) ^ (width + 1) = 2 * 2 ^ width := by rw [pow_succ, Int.mul_comm]
  have hnat : (2 : Nat) ^ (width + 1) = 2 * 2 ^ width := by rw [Nat.pow_succ, Nat.mul_comm]
  rw [toSigned]
  rcases Int.lt_or_le i 0 with hneg | hpos
  · -- A negative integer lies in the upper half of the words.
    have hmod : i % 2 ^ (width + 1) = i + 2 ^ (width + 1) := by
      rw [← Int.add_emod_right]
      exact Int.emod_eq_of_lt (by omega) (by omega)
    have hupper : 2 ^ (width + 1) ≤ 2 * ofInt (width + 1) i := by
      zify
      omega
    rw [if_pos hupper]
    omega
  · have hmod : i % 2 ^ (width + 1) = i := Int.emod_eq_of_lt hpos (by omega)
    have hlower : ¬2 ^ (width + 1) ≤ 2 * ofInt (width + 1) i := by
      zify
      omega
    rw [if_neg hlower]
    omega

/-- A value of the size that is asked for stays as it is. -/
theorem extend_self (signed : Bool) (width v : Nat) : extend signed width width v = v := by
  simp [extend]

namespace Operator

variable (unknown : Nat) (signed : Bool)

theorem compute_add (width : Nat) (i j : Int) :
    compute unknown width signed (ofInt width i) (ofInt width j) .add = ofInt width (i + j) := by
  have hsum : ((ofInt width i + ofInt width j : Nat) : Int) ≡ i + j [ZMOD 2 ^ width] := by
    rw [Nat.cast_add, cast_ofInt, cast_ofInt]
    exact (Int.mod_modEq i _).add (Int.mod_modEq j _)
  rw [compute, ← ofInt_natCast, ofInt_of_modEq hsum]

theorem compute_sub (width : Nat) (i j : Int) :
    compute unknown width signed (ofInt width i) (ofInt width j) .sub = ofInt width (i - j) := by
  have hle := (ofInt_lt width j).le
  have hdifference : ((ofInt width i + (2 ^ width - ofInt width j) : Nat) : Int)
      ≡ i + (0 - j) [ZMOD 2 ^ width] := by
    rw [Nat.cast_add, Nat.cast_sub hle, cast_ofInt, cast_ofInt, Nat.cast_pow, Nat.cast_ofNat]
    have hzero : (2 : Int) ^ width ≡ 0 [ZMOD 2 ^ width] := Int.emod_self
    exact (Int.mod_modEq i _).add (hzero.sub (Int.mod_modEq j _))
  rw [compute, ← ofInt_natCast, ofInt_of_modEq hdifference, Int.zero_sub, ← Int.sub_eq_add_neg]

theorem compute_mul (width : Nat) (i j : Int) :
    compute unknown width signed (ofInt width i) (ofInt width j) .mul = ofInt width (i * j) := by
  have hproduct : ((ofInt width i * ofInt width j : Nat) : Int) ≡ i * j [ZMOD 2 ^ width] := by
    rw [Nat.cast_mul, cast_ofInt, cast_ofInt]
    exact (Int.mod_modEq i _).mul (Int.mod_modEq j _)
  rw [compute, ← ofInt_natCast, ofInt_of_modEq hproduct]

end Operator

end Rtl

end StencilRtl
