import StencilRtl.Outcome

/-!
# Checked 64-bit arithmetic

Sizes and addresses are natural numbers below `2 ^ 64`, loop bounds are
integers in the signed 64-bit range. The operations here compute in `Nat` and
`Int` and give way when the exact result leaves the word, so that a result, if
there is one, is the exact one.

Products are taken from the left, starting at one. A product passing through a
number beyond the word gives way even if a later factor is zero.

## Main definitions

* `Word.fit`: A natural number, if it fits the word.
* `Word.add`, `Word.sub`, `Word.mul`, `Word.div`, `Word.mod`: Checked operations.
* `Word.product`: The product of a list of sizes.
* `SignedWord.add`: Checked addition of loop bounds.
-/

namespace StencilRtl

namespace Word

/-- One past the largest word. -/
def limit : Nat := UInt64.size

/-- `n` itself, if it fits the word. -/
def fit (n : Nat) : Fallible Nat :=
  if n < limit then .ok n else giveWay .overflow

/-- The sum, if it fits. -/
def add (a b : Nat) : Fallible Nat := fit (a + b)

/-- The product, if it fits. -/
def mul (a b : Nat) : Fallible Nat := fit (a * b)

/-- The difference, if it is not negative. -/
def sub (a b : Nat) : Fallible Nat :=
  if b ≤ a then .ok (a - b) else giveWay .overflow

/-- The quotient, unless the divisor is zero. -/
def div (a b : Nat) : Fallible Nat :=
  if b = 0 then giveWay .divisionByZero else .ok (a / b)

/-- The remainder, unless the divisor is zero. -/
def mod (a b : Nat) : Fallible Nat :=
  if b = 0 then giveWay .divisionByZero else .ok (a % b)

/-- The product of `sizes`, multiplied from the left. -/
def product (sizes : List Nat) : Fallible Nat :=
  sizes.foldlM mul 1

theorem fit_eq_ok {n m : Nat} : fit n = .ok m ↔ n < limit ∧ n = m := by
  unfold fit
  split
  · simp [*]
  · simp [giveWay, *]

theorem add_eq_ok {a b c : Nat} : add a b = .ok c ↔ a + b < limit ∧ a + b = c :=
  fit_eq_ok

theorem mul_eq_ok {a b c : Nat} : mul a b = .ok c ↔ a * b < limit ∧ a * b = c :=
  fit_eq_ok

theorem sub_eq_ok {a b c : Nat} : sub a b = .ok c ↔ b ≤ a ∧ a - b = c := by
  unfold sub
  split
  · simp [*]
  · simp [giveWay, *]

end Word

namespace SignedWord

/-- Whether an integer is in the signed 64-bit range. -/
def Fits (i : Int) : Prop := Int64.minValue.toInt ≤ i ∧ i ≤ Int64.maxValue.toInt

instance (i : Int) : Decidable (Fits i) :=
  inferInstanceAs (Decidable (_ ∧ _))

/-- The sum of two loop bounds, if it fits. -/
def add (a b : Int) : Fallible Int :=
  if Fits (a + b) then .ok (a + b) else giveWay .overflow

end SignedWord

end StencilRtl
