import StencilRtl.Decimal.Numeral

/-!
# Shortest decimal numerals

The numeral with the fewest digits that stands for a floating point number.

The reals that round to a number form an interval around it; its ends belong to
it exactly if the significand is even. For each count of digits the decimal
numbers with that many digits form a grid near the number, and only the two
grid points next to it can lie in the interval. The first grid with a point in
the interval wins; of two points the nearer one, and of two equally near ones
the one with the even last digit. Seventeen digits always suffice.

The numeral is written positionally while the exponent of its first digit is
between `-5` and `15`, and then always with a fraction. Beyond that it has one
digit before the point and an exponent.

## Main definitions

* `Binary64.shortestDigits`: The digits and the exponent of the first one.
* `Binary64.numeral`: The numeral.
-/

namespace StencilRtl

/-- The number of decimal digits of `n`; zero has none. -/
def decimalLength (n : Nat) : Nat :=
  if n = 0 then 0 else decimalLength (n / 10) + 1
termination_by n

namespace Binary64

/-- The exponent of the first decimal digit of `num / den`, which is not
    zero. -/
def firstDigitExponent (num den : Nat) : Int :=
  if den ≤ num then (decimalLength (num / den) : Int) - 1
  else -(decimalLength ((den - 1) / num) : Int)

/-- Whether `count * 10 ^ place` is at least (`lower`) or at most the number
    `steps * 2 ^ exponent`, strictly so unless `closed`. -/
def onSide (lower closed : Bool) (count : Nat) (place : Int) (steps : Nat) (exponent : Int) :
    Bool :=
  let decimal := count * Nat.pow 10 place.toNat * Nat.pow 2 (-exponent).toNat
  let binary := steps * Nat.pow 2 exponent.toNat * Nat.pow 10 (-place).toNat
  if closed then (if lower then binary ≤ decimal else decimal ≤ binary)
  else (if lower then binary < decimal else decimal < binary)

/-- Whether `count * 10 ^ place` rounds to the magnitude of `x`. -/
def roundsTo (x : Binary64) (count : Nat) (place : Int) : Bool :=
  let closed := x.significand % 2 = 0
  let below := if x.fractionField = 0 ∧ 1 < x.exponentField then 1 else 2
  onSide true closed count place (4 * x.significand - below) (x.exponent - 2)
    && onSide false closed count place (4 * x.significand + 2) (x.exponent - 2)

/-- The grid point with `digits` digits nearest to `x`, if one rounds to it.
    Returns the count of grid steps and the place of one step. -/
def onGrid (x : Binary64) (digits : Nat) : Option (Nat × Int) :=
  let (num, den) := x.quotient
  let place := firstDigitExponent num den - digits + 1
  let scaledNum := num * Nat.pow 10 (-place).toNat
  let scaledDen := den * Nat.pow 10 place.toNat
  let down := scaledNum / scaledDen
  let rest := scaledNum % scaledDen
  let nearer :=
    if 2 * rest < scaledDen then down
    else if scaledDen < 2 * rest then down + 1
    else down + down % 2
  let farther := if nearer = down then down + 1 else down
  if roundsTo x nearer place then some (nearer, place)
  else if roundsTo x farther place then some (farther, place)
  else none

/-- The first grid with a point that rounds to `x`, from `digits` digits on. -/
def firstGrid (x : Binary64) : Nat → Nat → Nat × Int
  | 0, _ => (0, 0)
  | fuel + 1, digits =>
      match onGrid x digits with
      | some point => point
      | none => firstGrid x fuel (digits + 1)

/-- Digits without the zeros at their end. -/
def trimmed (digits : List Nat) : List Nat :=
  (digits.reverse.dropWhile (· = 0)).reverse

/-- The shortest digits standing for a nonzero magnitude and the exponent of
    the first one. -/
def shortestDigits (x : Binary64) : List Nat × Int :=
  let (count, place) := firstGrid x 17 1
  let digits := decimalDigits count
  (trimmed digits, place + digits.length - 1)

/-- A fraction part, which is never empty. -/
def someDigits (digits : List Nat) : List Nat :=
  if digits = [] then [0] else digits

/-- The numeral of a finite number. -/
def numeral (x : Binary64) : Numeral :=
  if x.isZero then ⟨x.negative, [0], [0], none⟩
  else
    let (digits, first) := shortestDigits x
    if first < -5 ∨ 15 < first then ⟨x.negative, digits.take 1, digits.drop 1, some first⟩
    else if first < 0 then
      ⟨x.negative, [0], List.replicate (first.natAbs - 1) 0 ++ digits, none⟩
    else
      let before := first.toNat + 1
      let whole := digits.take before
      ⟨x.negative, whole ++ List.replicate (before - whole.length) 0,
        someDigits (digits.drop before), none⟩

end Binary64

end StencilRtl
