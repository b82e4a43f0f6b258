import StencilRtl.Word

/-!
# Register widths

How many bits a counter, a pointer or a level register needs.

Two questions come up. A register that tells `n` values apart needs
`bitsNeededFor n` bits, and one that holds the value `n` itself needs
`bitsToHold n`, which is the first question asked of `n + 1` values. Neither is
ever zero: a register that only ever holds zero still is a wire.

## Main definitions

* `binaryLength`: The number of binary digits of a number.
* `bitsNeededFor`: Bits telling a number of values apart.
* `bitsToHold`: Bits holding a value.
-/

namespace StencilRtl

/-- The number of binary digits of `n`; zero has none. -/
def binaryLength (n : Nat) : Nat :=
  if n = 0 then 0 else binaryLength (n / 2) + 1
termination_by n

/-- Bits needed to tell `n` values apart, at least one. -/
def bitsNeededFor (n : Nat) : Nat :=
  max (binaryLength (n - 1)) 1

/-- Bits needed to hold the value `n`. -/
def bitsToHold (n : Nat) : Fallible Nat := do
  return bitsNeededFor (← Word.add n 1)

theorem bitsNeededFor_pos (n : Nat) : 0 < bitsNeededFor n := by
  unfold bitsNeededFor; omega

end StencilRtl
