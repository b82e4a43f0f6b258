/-!
# Binary floating point of 64 bits

Floating point constants as the numbers they stand for.

A finite number of the format is `significand * 2 ^ exponent` with a sign, and
everything here is computed on that pair in exact natural-number arithmetic.
Rounding takes a quotient of naturals to the nearest number of the format, and
of two equally near ones to the one with the even significand. A quotient too
large for the format has no nearest number. Sums of the form
"round (a * b)" are obtained by rounding the exact result.

## Main definitions

* `Binary64`: A number of the format, held as its bits.
* `Binary64.significand`, `Binary64.exponent`: The number it stands for.
* `Binary64.round`: The nearest number to a quotient.
* `Binary64.scaleUp`, `Binary64.scaleDown`: Rounded products and quotients.
-/

namespace StencilRtl

/-- A number in the 64-bit binary format, held as its bits. -/
structure Binary64 where
  bits : UInt64
  deriving DecidableEq, Repr, Inhabited

namespace Binary64

/-- The exponent of the smallest numbers. -/
def leastExponent : Int := -1074

/-- The bit in front of the fraction, which normal numbers leave out. -/
def leadingBit : Nat := 0x10000000000000

/-- The bit of the sign. -/
def signBit : Nat := 0x8000000000000000

/-- The eleven bits after the sign. -/
def exponentField (x : Binary64) : Nat := x.bits.toNat / leadingBit % 2048

/-- The low fifty-two bits. -/
def fractionField (x : Binary64) : Nat := x.bits.toNat % leadingBit

/-- The sign bit. -/
def negative (x : Binary64) : Bool := signBit ≤ x.bits.toNat

/-- The significand, with the leading bit that normal numbers leave out. -/
def significand (x : Binary64) : Nat :=
  if x.exponentField = 0 then x.fractionField else x.fractionField + leadingBit

/-- The exponent of the significand's last bit. -/
def exponent (x : Binary64) : Int :=
  if x.exponentField = 0 then leastExponent else (x.exponentField : Int) - 1075

/-- The magnitude as a quotient of naturals. -/
def quotient (x : Binary64) : Nat × Nat :=
  (x.significand * Nat.pow 2 x.exponent.toNat, Nat.pow 2 (-x.exponent).toNat)

/-- Whether the number is a zero of either sign. -/
def isZero (x : Binary64) : Bool := x.significand = 0

/-- `num / den` to the nearest natural, a half going to the even neighbour. -/
def divideToEven (num den : Nat) : Nat :=
  let down := num / den
  let rest := num % den
  if 2 * rest < den then down
  else if den < 2 * rest then down + 1
  else down + down % 2

/-- The exponent of the last bit of a 53-bit significand for `num / den`, not
    below the least one. -/
def lastBitExponent (num den : Nat) : Int :=
  let guess : Int := (Nat.log2 num : Int) - (Nat.log2 den : Int)
  let reached := decide (den * Nat.pow 2 guess.toNat ≤ num * Nat.pow 2 (-guess).toNat)
  max (if reached then guess - 52 else guess - 53) leastExponent

/-- The number of the format nearest to `num / den`, unless it is too large. -/
def round (negative : Bool) (num den : Nat) : Option Binary64 :=
  let sign : Nat := if negative then signBit else 0
  if num = 0 then some ⟨UInt64.ofNat sign⟩
  else
    let last := lastBitExponent num den
    let significand := divideToEven (num * Nat.pow 2 (-last).toNat) (den * Nat.pow 2 last.toNat)
    let magnitude :=
      if significand < leadingBit then significand
      else (last + 1075).toNat * leadingBit + (significand - leadingBit)
    if magnitude < 2047 * leadingBit then some ⟨UInt64.ofNat (sign + magnitude)⟩ else none

/-- The number nearest to a natural; every word has one. -/
def ofNat (n : Nat) : Binary64 := (round false n 1).getD ⟨0⟩

/-- The same number with the other sign. -/
def opposite (x : Binary64) : Binary64 := ⟨x.bits ^^^ UInt64.ofNat signBit⟩

/-- The number nearest to `10 ^ k`. -/
def powerOfTen (k : Nat) : Binary64 := ofNat (Nat.pow 10 k)

/-- The rounded product of two magnitudes, unless it is too large. -/
def scaleUp (x y : Binary64) : Option Binary64 :=
  let (a, b) := x.quotient
  let (c, d) := y.quotient
  round x.negative (a * c) (b * d)

/-- The rounded quotient of two magnitudes. The second is not zero. -/
def scaleDown (x y : Binary64) : Binary64 :=
  let (a, b) := x.quotient
  let (c, d) := y.quotient
  (round x.negative (a * d) (b * c)).getD x

end Binary64

end StencilRtl
