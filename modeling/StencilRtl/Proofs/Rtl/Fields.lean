import StencilRtl.Proofs.LineBuffer.Layout
import StencilRtl.Proofs.Rtl.Logic

/-!
# Words Put Together

What taking words apart and putting them together comes to in a run.

Elements are taken out of signals as parts of a fixed width and put together into a
word. A part is as wide as it says and has no sign, so its surroundings do not matter
to it, and that is all a concatenation needs to know of what it is made of.

## Main definitions

* `Expr.IsField`: An expression does not depend on its surroundings.

## Theorems

* `Expr.isField_part`, `Expr.own_part`: An element of a signal.
* `Expr.assigned_concat`, `Expr.assigned_brick`: Elements put together.
-/

namespace StencilRtl

namespace Rtl

variable {Γ : Typing} {s : State}

namespace Expr

/-- An expression of `bits` bits whose value its surroundings do not change. -/
structure IsField (Γ : Typing) (s : State) (bits : Nat) (e : Expr) : Prop where
  size : e.size Γ = bits
  unsigned : e.isSigned = false
  value : ∀ context signed, e.value Γ s context signed = e.own Γ s
  small : e.own Γ s < 2 ^ bits

section

variable {name : String} {bits i : Nat}

theorem value_part (hroom : i * bits + bits ≤ Γ.width name) (context : Nat) (signed : Bool) :
    (Expr.part (.ref name) (i * bits) bits).value Γ s context signed
      = digit bits (s.value name) i := by
  rw [value, value, isSigned, extend_false, Expr.size, bitsOf, if_pos hroom, digit,
    Nat.shiftRight_eq_div_pow, ← Nat.pow_mul, Nat.mul_comm]

/-- An element of a signal. -/
theorem own_part (hroom : i * bits + bits ≤ Γ.width name) :
    (Expr.part (.ref name) (i * bits) bits).own Γ s = digit bits (s.value name) i :=
  value_part hroom _ _

theorem isField_part (hroom : i * bits + bits ≤ Γ.width name) :
    (Expr.part (.ref name) (i * bits) bits).IsField Γ s bits := by
  refine ⟨?_, ?_, ?_, ?_⟩
  · rw [Expr.size]
  · rw [isSigned]
  · intro context signed
    rw [value_part hroom, own_part hroom]
  · rw [own_part hroom]
    exact Nat.mod_lt _ (Nat.two_pow_pos bits)

end

/-- Parts that their surroundings do not change are put together each one on its own. -/
theorem joined_eq_packed {context : Nat} {signed : Bool} {parts : List Expr}
    (h : ∀ e ∈ parts, e.value Γ s context signed = e.own Γ s) :
    joined Γ s context signed parts = packed Γ s parts := by
  cases parts with
  | nil => rw [joined, packed]
  | cons e rest =>
      cases rest with
      | nil =>
          -- A lone part is not put into braces and sees its surroundings.
          rw [joined, packed, packed, Nat.mul_zero, Nat.add_zero, h e (List.mem_cons_self ..), own]
      | cons e' rest => rw [joined.eq_3 _ _ _ _ _ _ (by simp), packed.eq_2 _ _ e]

/-- Elements put together, each one on its own. -/
theorem packed_fields {bits : Nat} {parts : List Expr} (h : ∀ e ∈ parts, e.IsField Γ s bits) :
    packed Γ s parts = Nat.ofDigits (2 ^ bits) (parts.map (own Γ s)) := by
  induction parts with
  | nil => rw [packed, List.map_nil, Nat.ofDigits_nil]
  | cons e rest ih =>
      have he := h e (List.mem_cons_self ..)
      rw [packed, he.value, he.size, ih fun e' he' => h e' (List.mem_cons_of_mem e he'),
        List.map_cons, Nat.ofDigits_cons]

/-- Elements put together into a word with room for them. -/
theorem assigned_concat {bits width : Nat} {parts : List Expr}
    (h : ∀ e ∈ parts, e.IsField Γ s bits) (hroom : bits * parts.length ≤ width) :
    (Expr.concat parts).assigned Γ s width = Nat.ofDigits (2 ^ bits) (parts.map (own Γ s)) := by
  have hvalue : ∀ context signed, (Expr.concat parts).value Γ s context signed
      = Nat.ofDigits (2 ^ bits) (parts.map (own Γ s)) := by
    intro context signed
    rw [value, joined_eq_packed fun e he => (h e he).value context signed, packed_fields h]
  have hlt : Nat.ofDigits (2 ^ bits) (parts.map (own Γ s)) < 2 ^ width := by
    have hdigits := ofDigits_lt (Nat.two_pow_pos bits) (l := parts.map (own Γ s)) (by
      intro v hv
      rcases List.mem_map.mp hv with ⟨e, he, rfl⟩
      exact (h e he).small)
    rw [List.length_map, ← Nat.pow_mul] at hdigits
    exact Nat.lt_of_lt_of_le hdigits (Nat.pow_le_pow_right (by omega) hroom)
  rw [assigned, hvalue, Nat.mod_eq_of_lt hlt]

/-- A block put together from elements of signals. -/
theorem assigned_brick {bits n₀ n₁ n₂ width : Nat} {signal : Nat → Nat → Nat → String}
    {element : Nat → Nat → Nat → Nat}
    (hpart : ∀ x < n₀, ∀ y < n₁, ∀ k < n₂,
      element x y k * bits + bits ≤ Γ.width (signal x y k))
    (hroom : n₀ * (n₁ * n₂) * bits ≤ width) :
    (Expr.concat ((List.range n₂).flatMap fun k => (List.range n₁).flatMap fun y =>
        (List.range n₀).map fun x =>
          .part (.ref (signal x y k)) (element x y k * bits) bits)).assigned Γ s width
      = brick bits n₀ n₁ n₂ fun x y k =>
          digit bits (s.value (signal x y k)) (element x y k) := by
  -- The concatenation is kept as one list, so that its fields and its length are facts about it.
  generalize hparts : ((List.range n₂).flatMap fun k => (List.range n₁).flatMap fun y =>
    (List.range n₀).map fun x =>
      Expr.part (.ref (signal x y k)) (element x y k * bits) bits) = parts
  have hfields : ∀ e ∈ parts, e.IsField Γ s bits := by
    intro e he
    rw [← hparts] at he
    rcases List.mem_flatMap.mp he with ⟨k, hk, he⟩
    rcases List.mem_flatMap.mp he with ⟨y, hy, he⟩
    rcases List.mem_map.mp he with ⟨x, hx, rfl⟩
    exact isField_part
      (hpart x (List.mem_range.mp hx) y (List.mem_range.mp hy) k (List.mem_range.mp hk))
  have hlength : parts.length = n₀ * (n₁ * n₂) := by
    simp only [← hparts, List.length_flatMap, List.length_map, List.length_range, List.map_const',
      List.sum_replicate_nat]
    rw [Nat.mul_comm n₁ n₀, Nat.mul_comm, Nat.mul_assoc]
  rw [assigned_concat hfields (by rw [hlength, Nat.mul_comm]; exact hroom), brick, ← hparts]
  simp only [List.map_flatMap, List.map_map]
  refine congrArg (Nat.ofDigits (2 ^ bits)) (List.flatMap_congr fun k hk =>
    List.flatMap_congr fun y hy => List.map_congr_left fun x hx => ?_)
  exact own_part
    (hpart x (List.mem_range.mp hx) y (List.mem_range.mp hy) k (List.mem_range.mp hk))

end Expr

end Rtl

end StencilRtl
