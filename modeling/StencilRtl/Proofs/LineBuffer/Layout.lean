import Mathlib.Data.List.Basic
import Mathlib.Data.List.GetD
import Mathlib.Data.Nat.Digits.Defs
import StencilRtl.Proofs.Tuples

/-!
# Blocks as Words

How a block of elements lies in a word, and how to find an element in it.

A block is laid out flat, the first of its dimensions fastest, and its elements are
the digits of a word in base `2 ^ bits`, the first one lowest. Three dimensions are
enough for everything a line buffer handles. A block with fewer is one with extents
of one, and two neighbouring dimensions can be counted as one without moving
anything, which is what `brick_regroup` says.

## Main definitions

* `digit`: An element of a word.
* `brick`: The word of a block with three dimensions.

## Theorems

* `digit_brick`: The elements of a block.
* `brick_regroup`: Two dimensions counted as one.
* `brick_digit`: A word is the block of its elements.
-/

namespace StencilRtl

/-- The element with a given number in a word. -/
def digit (bits v i : Nat) : Nat := v / (2 ^ bits) ^ i % 2 ^ bits

/-- A block with three dimensions as a word. -/
def brick (bits n₀ n₁ n₂ : Nat) (px : Nat → Nat → Nat → Nat) : Nat :=
  Nat.ofDigits (2 ^ bits) ((List.range n₂).flatMap fun k =>
    (List.range n₁).flatMap fun y => (List.range n₀).map fun x => px x y k)

/-- Looking up what a function makes of numbers. -/
theorem getD_map_range (f : Nat → Nat) {n i : Nat} (hi : i < n) :
    ((List.range n).map f).getD i 0 = f i := by
  rw [List.getD_eq_getElem _ _ (by rw [List.length_map, List.length_range]; exact hi),
    List.getElem_map, List.getElem_range]

/-- Digits fit a word with room for as many. -/
theorem ofDigits_lt {b : Nat} (hb : 0 < b) {l : List Nat} (hl : ∀ x ∈ l, x < b) :
    Nat.ofDigits b l < b ^ l.length := by
  have hmod := Nat.ofDigits_mod_pow_eq_ofDigits_take l.length hb l hl
  rw [List.take_length] at hmod
  rw [← hmod]
  exact Nat.mod_lt _ (Nat.pow_pos hb)

/-- The digit with a given number. -/
theorem digit_ofDigits {bits : Nat} {l : List Nat} (hl : ∀ x ∈ l, x < 2 ^ bits) {i : Nat}
    (hi : i < l.length) : digit bits (Nat.ofDigits (2 ^ bits) l) i = l[i] := by
  have hpos : 0 < 2 ^ bits := Nat.two_pow_pos bits
  have hmem : l[i] < 2 ^ bits := hl _ (List.getElem_mem hi)
  rw [digit, Nat.ofDigits_div_pow_eq_ofDigits_drop i hpos l hl, List.drop_eq_getElem_cons hi,
    Nat.ofDigits_cons, Nat.add_mul_mod_self_left, Nat.mod_eq_of_lt hmem]

/-- The elements of a block by their place in it. -/
theorem brick_eq (bits n₀ n₁ n₂ : Nat) (px : Nat → Nat → Nat → Nat) :
    brick bits n₀ n₁ n₂ px = Nat.ofDigits (2 ^ bits) ((List.range (n₀ * (n₁ * n₂))).map fun i =>
      px (i % n₀) (i / n₀ % n₁) (i / n₀ / n₁)) := by
  -- Number by number: first along a row, then the rows of a plane.
  have hrow : ∀ y k, ((List.range n₀).map fun x => px x y k)
      = (List.range n₀).map fun x => px ((x + n₀ * y) % n₀) ((x + n₀ * y) / n₀) k := by
    refine fun y k => List.map_congr_left fun x hx => ?_
    rw [(pair_mod_div (List.mem_range.mp hx) y).1, (pair_mod_div (List.mem_range.mp hx) y).2]
  have hplane : ∀ k, ((List.range n₁).flatMap fun y => (List.range n₀).map fun x => px x y k)
      = (List.range n₁).flatMap fun y => (List.range n₀).map fun x =>
          px ((x + n₀ * (y + n₁ * k)) % n₀) ((x + n₀ * (y + n₁ * k)) / n₀ % n₁)
            ((x + n₀ * (y + n₁ * k)) / n₀ / n₁) := by
    refine fun k => List.flatMap_congr fun y hy => List.map_congr_left fun x hx => ?_
    have houter := pair_mod_div (List.mem_range.mp hx) (y + n₁ * k)
    have hinner := pair_mod_div (List.mem_range.mp hy) k
    rw [houter.1, houter.2, hinner.1, hinner.2]
  rw [brick, ← flatMap_range_map n₀ (n₁ * n₂), ← List.map_id (List.range (n₁ * n₂)),
    ← flatMap_range_map n₁ n₂ id]
  simp only [List.flatMap_assoc, List.flatMap_map, id_eq, hplane]

/-- Blocks with the same elements are the same word. -/
theorem brick_congr {bits n₀ n₁ n₂ : Nat} {px px' : Nat → Nat → Nat → Nat}
    (h : ∀ x < n₀, ∀ y < n₁, ∀ k < n₂, px x y k = px' x y k) :
    brick bits n₀ n₁ n₂ px = brick bits n₀ n₁ n₂ px' := by
  refine congrArg (Nat.ofDigits (2 ^ bits)) (List.flatMap_congr fun k hk =>
    List.flatMap_congr fun y hy => List.map_congr_left fun x hx => ?_)
  exact h x (List.mem_range.mp hx) y (List.mem_range.mp hy) k (List.mem_range.mp hk)

section

variable {bits n₀ n₁ n₂ : Nat} {px : Nat → Nat → Nat → Nat}

/-- The elements of a block. -/
theorem digit_brick (hpx : ∀ x y k, px x y k < 2 ^ bits) {x y k : Nat} (hx : x < n₀)
    (hy : y < n₁) (hk : k < n₂) :
    digit bits (brick bits n₀ n₁ n₂ px) (x + n₀ * (y + n₁ * k)) = px x y k := by
  have hplace : x + n₀ * (y + n₁ * k) < n₀ * (n₁ * n₂) := pair_lt hx (pair_lt hy hk)
  have houter := pair_mod_div hx (y + n₁ * k)
  have hinner := pair_mod_div hy k
  have hdigits : ∀ v ∈ (List.range (n₀ * (n₁ * n₂))).map fun i =>
      px (i % n₀) (i / n₀ % n₁) (i / n₀ / n₁), v < 2 ^ bits := by
    intro v hv
    rcases List.mem_map.mp hv with ⟨i, _, rfl⟩
    exact hpx _ _ _
  rw [brick_eq, digit_ofDigits hdigits (by rw [List.length_map, List.length_range]; exact hplace),
    List.getElem_map, List.getElem_range, houter.1, houter.2, hinner.1, hinner.2]

/-- The two upper dimensions of a block can be counted as one. -/
theorem brick_regroup :
    brick bits n₀ (n₁ * n₂) 1 (fun x r _ => px x (r % n₁) (r / n₁))
      = brick bits n₀ n₁ n₂ px := by
  rw [brick_eq, brick_eq, Nat.mul_one]
  refine congrArg _ (List.map_congr_left fun i hi => ?_)
  have hrow : i / n₀ < n₁ * n₂ := Nat.div_lt_of_lt_mul (List.mem_range.mp hi)
  rw [Nat.mod_eq_of_lt hrow]

end

/-- A word is the block of its elements. -/
theorem ofDigits_digit {bits v : Nat} (n : Nat) (hv : v < (2 ^ bits) ^ n) :
    Nat.ofDigits (2 ^ bits) ((List.range n).map (digit bits v)) = v := by
  have htake : ∀ m, Nat.ofDigits (2 ^ bits) ((List.range m).map (digit bits v))
      = v % (2 ^ bits) ^ m := by
    intro m
    induction m with
    | zero => rw [List.range_zero, List.map_nil, Nat.ofDigits_nil, Nat.pow_zero, Nat.mod_one]
    | succ m ih =>
        rw [List.range_succ, List.map_append, Nat.ofDigits_append, ih, List.length_map,
          List.length_range, List.map_singleton, Nat.ofDigits_singleton, digit, Nat.pow_succ,
          Nat.mod_mul]
  rw [htake n, Nat.mod_eq_of_lt hv]

theorem brick_digit {bits n₀ n₁ v : Nat} (hv : v < (2 ^ bits) ^ (n₀ * n₁)) :
    brick bits n₀ n₁ 1 (fun x y _ => digit bits v (x + n₀ * y)) = v := by
  rw [brick, List.range_one, List.flatMap_singleton, flatMap_range_map n₀ n₁ (digit bits v),
    ofDigits_digit _ hv]

end StencilRtl
