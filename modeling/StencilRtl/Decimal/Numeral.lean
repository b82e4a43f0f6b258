import StencilRtl.Decimal.Binary64

/-!
# Decimal numerals

Numbers as they are written: a sign, the digits before the point, the digits
after it and an exponent of ten.

A numeral with neither a point nor an exponent is *integral*, except that a
negative zero is not: it has a sign that no integer has. Integral numerals that
fit a 64-bit word, signed or not, are read as integers. Every other numeral is
read as binary floating point.

Reading floating point gathers as many leading digits as fit a 64-bit word,
drops the others while keeping track of the decimal exponent, and then scales
the word by one power of ten. Each of these steps rounds, so the result is not
always the number nearest to the numeral; it is off by little, and exact for
every numeral of up to fifteen digits whose power of ten is below `10 ^ 22`.

## Main definitions

* `Numeral`: A number as written.
* `Numeral.integer?`: The integer an integral numeral stands for.
* `Numeral.binary64?`: The floating point number it is read as.
* `Numeral.text`: The numeral as text.
-/

namespace StencilRtl

/-- A number as written. Digits are given by value, most significant first. -/
structure Numeral where
  negative : Bool
  whole : List Nat
  fraction : List Nat
  exponent : Option Int
  deriving DecidableEq, Repr, Inhabited

/-- The digits of a natural number, most significant first; zero has one. -/
def decimalDigits (n : Nat) : List Nat :=
  (Nat.toDigits 10 n).map fun c => c.toNat - 48

namespace Numeral

/-- The value of a list of digits. -/
def valueOf (digits : List Nat) : Nat :=
  digits.foldl (fun n d => 10 * n + d) 0

/-- The numeral of a natural number. -/
def ofNat (n : Nat) : Numeral := ⟨false, decimalDigits n, [], none⟩

/-- The numeral of an integer. -/
def ofInt (i : Int) : Numeral := ⟨decide (i < 0), decimalDigits i.natAbs, [], none⟩

/-- The integer a numeral stands for, if it is integral and fits a 64-bit
    word, with or without a sign. -/
def integer? (n : Numeral) : Option Int :=
  if n.fraction = [] ∧ n.exponent = none then
    let magnitude := valueOf n.whole
    if n.negative then
      if 0 < magnitude ∧ 2 * magnitude ≤ UInt64.size then some (-(magnitude : Int)) else none
    else if magnitude < UInt64.size then some magnitude else none
  else none

/-- Gather digits before the point into a word. Returns the word and the
    number of digits that no longer fit. -/
def gatherWhole : List Nat → Nat → Nat × Nat
  | [], word => (word, 0)
  | digit :: rest, word =>
      if 10 * word + digit < UInt64.size then gatherWhole rest (10 * word + digit)
      else (word, rest.length + 1)

/-- Gather digits after the point into a word. Returns the word and the number
    of digits taken; the first one that does not fit ends the gathering. -/
def gatherFraction : List Nat → Nat → Nat → Nat × Nat
  | [], word, taken => (word, taken)
  | digit :: rest, word, taken =>
      if 10 * word + digit < UInt64.size then gatherFraction rest (10 * word + digit) (taken + 1)
      else (word, taken)

/-- Scale `x` down by a power of ten, in steps of the largest one. Numbers that
    have become zero stay zero. -/
def shrink : Nat → Binary64 → Nat → Binary64
  | 0, x, _ => x
  | fuel + 1, x, power =>
      if power ≤ 308 then x.scaleDown (.powerOfTen power)
      else if x.isZero then x
      else shrink fuel (x.scaleDown (.powerOfTen 308)) (power - 308)

/-- A word scaled by a power of ten, unless the result is too large. Three
    steps downwards bring every word to zero. -/
def scaled (word : Nat) (power : Int) : Option Binary64 :=
  let x := Binary64.ofNat word
  if power < 0 then some (shrink 3 x power.natAbs)
  else if power ≤ 308 then x.scaleUp (.powerOfTen power.toNat)
  else if x.isZero then some x
  else none

/-- The floating point number a numeral is read as, unless it is too large. -/
def binary64? (n : Numeral) : Option Binary64 :=
  let (word, dropped) := gatherWhole n.whole 0
  let (word, taken) := gatherFraction n.fraction word 0
  let power : Int := (dropped : Int) - taken + n.exponent.getD 0
  (scaled word power).map fun x => if n.negative then x.opposite else x

/-- One digit as a character. -/
def digitChar (digit : Nat) : Char := Char.ofNat (48 + digit)

/-- The text of a list of digits. -/
def digitsText (digits : List Nat) : String :=
  String.ofList (digits.map digitChar)

/-- An exponent, which always carries its sign. -/
def exponentText (exponent : Int) : String :=
  (if exponent < 0 then "e-" else "e+") ++ digitsText (decimalDigits exponent.natAbs)

/-- The numeral as text. -/
def text (n : Numeral) : String :=
  (if n.negative then "-" else "") ++ digitsText n.whole
    ++ (if n.fraction = [] then "" else "." ++ digitsText n.fraction)
    ++ (match n.exponent with
        | none => ""
        | some exponent => exponentText exponent)

end Numeral

end StencilRtl
