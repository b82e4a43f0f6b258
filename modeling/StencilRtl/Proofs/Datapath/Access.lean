import StencilRtl.Proofs.Datapath.Lowering
import StencilRtl.Proofs.Registers.Layout
import StencilRtl.Proofs.Rtl.Fields

/-!
# Accesses to Stencils

Which bits of a word an access takes.

An access with constant coordinates becomes a part of the word at a bit known in advance.
With other coordinates it becomes a field at a place the hardware computes, and `place`
nests sums and products in the order in which `flatIndex` adds and multiplies. What the
sums are worth depends on the operators, so it is told for interpretations over the
integers in which a sum is a sum. Hardware that has the place at hand takes the same
bits.

Only constants are checked, and what counts as one is up to `Expr.constant?`. An access
with a coordinate outside of its box is refused if all coordinates are constants, and one
with the wrong number of coordinates is refused in any case.

## Main definitions

* `Interpretation.Exact`: Sums and products over the integers are what they say.
* `Interpretation.integers`: The operators on integers.
* `Outside`: A coordinate that is not in its extent.

## Theorems

* `Interpretation.Exact.place_eq`: A computed place is the number of an element.
* `Scope.lower_fixed`, `Scope.lower_computed`: What an access becomes.
* `Scope.lower_outside`, `Scope.lower_rank`: Accesses that are refused.
* `Rtl.Expr.own_field`: A field is the element with a number.
-/

namespace StencilRtl

namespace Interpretation

/-- Numbers, sums and products over the integers are what they say. -/
structure Exact (I : Interpretation Int) : Prop where
  number : ∀ v, I.number v = v
  add : ∀ a b, I.binary .add a b = a + b
  mul : ∀ a b, I.binary .mul a b = a * b

/-- Whether something holds, as a number. -/
def truth (p : Prop) [Decidable p] : Int := if p then 1 else 0

/-- What an operator computes on integers. -/
def compute (a b : Int) : Rtl.Operator → Int
  | .add => a + b
  | .sub => a - b
  | .mul => a * b
  | .div => a.tdiv b
  | .mod => a.tmod b
  | .eq => truth (a = b)
  | .ne => truth (a ≠ b)
  | .lt => truth (a < b)
  | .le => truth (a ≤ b)
  | .gt => truth (b < a)
  | .ge => truth (b ≤ a)
  | .logicalAnd => truth (a ≠ 0 ∧ b ≠ 0)
  | .logicalOr => truth (a ≠ 0 ∨ b ≠ 0)
  | .bitAnd => (a.toNat &&& b.toNat : Nat)
  | .bitOr => (a.toNat ||| b.toNat : Nat)
  | .bitXor => (a.toNat ^^^ b.toNat : Nat)
  | .shiftLeft => a * 2 ^ b.toNat
  | .shiftRight => a / 2 ^ b.toNat
  | .shiftRightSigned => a / 2 ^ b.toNat

/-- The operators on integers, which are never cut to size. -/
def integers : Interpretation Int where
  literal _ v := v
  signedLiteral _ v := v
  number v := v
  not a := -a - 1
  isZero a := truth (a = 0)
  negate a := -a
  binary operator a b := compute a b operator
  all terms := truth (∀ a ∈ terms, a ≠ 0)
  any terms := truth (∃ a ∈ terms, a ≠ 0)
  mux condition ifTrue ifFalse := if condition = 0 then ifFalse else ifTrue
  concat parts := parts.headD 0
  part a low width := a / 2 ^ low % 2 ^ width
  field a index width := a / 2 ^ (index.toNat * width) % 2 ^ width
  signed a := a
  unsigned a := a
  fit _ a := a
  index := Int.toNat
  holds a := a ≠ 0
  fit_fit _ _ := rfl

theorem integers_exact : integers.Exact := ⟨fun _ => rfl, fun _ _ => rfl, fun _ _ => rfl⟩

namespace Exact

variable {I : Interpretation Int} (h : I.Exact)

include h

/-- A place is computed from the last coordinate to the first one. -/
theorem place_cons (c : Int) (extent : Nat) (rest : List (Int × Nat)) :
    I.place ((c, extent) :: rest) = c + I.place rest * extent := by
  cases rest with
  | nil => rw [place, place, h.number, Int.zero_mul, Int.add_zero]
  | cons p others => rw [place, h.add, h.mul, h.number]; exact List.cons_ne_nil _ _

/-- A computed place is the number of the element. -/
theorem place_eq {extents index : List Nat} {flat : Nat} (hinside : Inside extents index)
    (hflat : flatIndex extents index = .ok flat) :
    I.place ((index.map Nat.cast).zip extents) = flat := by
  induction hinside generalizing flat with
  | nil =>
      rcases Except.ok.inj hflat with rfl
      exact h.number 0
  | @cons i extent index extents _ _ ih =>
      rcases flatIndex_cons_ok hflat with ⟨rest, hrest, rfl⟩
      rw [List.map_cons, List.zip_cons_cons, h.place_cons, ih hrest, Int.natCast_add,
        Int.natCast_mul, Int.mul_comm]

end Exact

end Interpretation

/-- A coordinate that is not in its extent. -/
def Outside (p : Int × Nat) : Prop := p.1 < 0 ∨ (p.2 : Int) ≤ p.1

section

variable (name : String)

/-- Coordinates of a box pass the check. -/
theorem checkedCoordinates_of_inside {extents index : List Nat} (h : Inside extents index)
    (d : Nat) : checkedCoordinates name d ((index.map Nat.cast).zip extents) = .ok index := by
  induction h generalizing d with
  | nil => rfl
  | @cons i extent index extents hi _ ih =>
      rw [List.map_cons, List.zip_cons_cons, checkedCoordinates, if_neg (by omega), ih]
      rfl

/-- The check names the first coordinate that is outside of its extent. -/
theorem checkedCoordinates_outside {pairs : List (Int × Nat)} (h : ∃ p ∈ pairs, Outside p)
    (d : Nat) : ∃ k p, pairs[k]? = some p ∧ Outside p ∧
      checkedCoordinates name d pairs = unsupported (.indexOutOfBounds p.1 (d + k) name) := by
  induction pairs generalizing d with
  | nil => exact absurd h (by simp)
  | cons p rest ih =>
      rcases p with ⟨i, extent⟩
      by_cases hfirst : i < 0 ∨ (extent : Int) ≤ i
      · exact ⟨0, (i, extent), rfl, hfirst, by rw [checkedCoordinates, if_pos hfirst]; rfl⟩
      -- The first coordinate is inside, so that the check goes on to the rest.
      have hrest : ∃ p ∈ rest, Outside p := by
        rcases h with ⟨p, hp, hout⟩
        rcases List.mem_cons.mp hp with rfl | hp
        · exact absurd hout hfirst
        · exact ⟨p, hp, hout⟩
      rcases ih hrest (d + 1) with ⟨k, p, hk, hout, hcheck⟩
      refine ⟨k + 1, p, hk, hout, ?_⟩
      rw [checkedCoordinates, if_neg hfirst, hcheck, Nat.add_comm k 1, Nat.add_assoc]
      rfl

end

/-- Coordinates are constants of some values. -/
def Constants (args : List Expr) (index : List Int) : Prop :=
  List.Forall₂ (fun a i => a.constant? = some i) args index

theorem Constants.mapM_eq {args : List Expr} {index : List Int} (h : Constants args index) :
    args.mapM Expr.constant? = some index := by
  induction h with
  | nil => rfl
  | cons hfirst _ ih => rw [List.mapM_cons, hfirst, ih]; rfl

theorem mapM_constant?_none {args : List Expr} (h : ∃ a ∈ args, a.constant? = none) :
    args.mapM Expr.constant? = none := by
  induction args with
  | nil => exact absurd h (by simp)
  | cons a rest ih =>
      rw [List.mapM_cons]
      cases hfirst : a.constant? with
      | none => rfl
      | some v =>
          -- The argument that is no constant is among the rest.
          have hrest : ∃ b ∈ rest, b.constant? = none := by
            rcases h with ⟨b, hb, hnone⟩
            rcases List.mem_cons.mp hb with rfl | hb
            · rw [hfirst] at hnone
              exact absurd hnone (Option.some_ne_none v)
            · exact ⟨b, hb, hnone⟩
          rw [ih hrest]
          rfl

namespace Scope

variable {s : Scope} {type : ScalarType} {name : String} {args : List Expr}
  {callType : CallType} {shape : Shape} {r t : LoweringState}

section

variable (haccess : (callType = .access || isStencilName name) = true)

include haccess

/-- An access is what is found at a location. -/
theorem lower_access {x : Rtl.Expr} :
    Returns (s.lower (.call type name args callType)) r x t ↔
      ∃ l e, Returns (s.locate name args (s.coordinates args)) r l t ∧ l.element = .ok e ∧
        x = type.read e := by
  unfold lower
  rw [if_pos haccess, returns_bind]
  constructor
  · rintro ⟨l, r₁, hl, h⟩
    rcases returns_lift_bind.mp h with ⟨e, he, hx⟩
    rcases returns_pure.mp hx with ⟨rfl, rfl⟩
    exact ⟨l, e, hl, he, rfl⟩
  · rintro ⟨l, e, hl, he, rfl⟩
    exact ⟨l, t, hl, returns_lift_bind.mpr ⟨e, he, returns_pure.mpr ⟨rfl, rfl⟩⟩⟩

/-- An access without a location fails like the search for it. -/
theorem lower_access_error {f : Failure}
    (h : (s.locate name args (s.coordinates args)).run.run r = (.error f, r)) :
    (s.lower (.call type name args callType)).run.run r = (.error f, r) := by
  unfold lower
  rw [if_pos haccess, run_bind, h]

variable (hshape : s.stencil? (printName name) = some shape)

include hshape

/-- An access at constant coordinates of the box becomes the bits of the element. -/
theorem lower_fixed {index : List Nat} {flat : Nat} (hinside : Inside shape.extents index)
    (hargs : Constants args (index.map Nat.cast))
    (hflat : flatIndex shape.extents index = .ok flat)
    (hroom : flat * shape.elem.bits < Word.limit) :
    Returns (s.lower (.call type name args callType)) r
      (type.read (.part (.ref (printName name)) (flat * shape.elem.bits) shape.elem.bits)) r := by
  have hrank : args.length = shape.rank := by
    rw [hargs.length_eq, List.length_map, hinside.length_eq, Shape.rank]
  have hlocated : Returns (s.locate name args (s.coordinates args)) r
      ⟨printName name, shape, .fixed flat⟩ r := by
    unfold locate
    simp only [hshape, hrank, ne_eq, not_true_eq_false, if_false, hargs.mapM_eq]
    exact returns_lift_bind.mpr ⟨index, checkedCoordinates_of_inside name hinside 0,
      returns_lift_bind.mpr ⟨flat, hflat, returns_pure.mpr ⟨rfl, rfl⟩⟩⟩
  have hlow : Word.mul flat shape.elem.bits = .ok (flat * shape.elem.bits) :=
    Word.mul_eq_ok.mpr ⟨hroom, rfl⟩
  refine (lower_access haccess).mpr ⟨_, _, hlocated, ?_, rfl⟩
  exact Fallible.bind_ok.mpr ⟨_, hlow, rfl⟩

/-- An access at other coordinates becomes the field at the place they are computed to. -/
theorem lower_computed (hargs : ∃ a ∈ args, a.constant? = none) (hrank : args.length = shape.rank)
    {x : Rtl.Expr} :
    Returns (s.lower (.call type name args callType)) r x t ↔
      ∃ cs, Returns (s.coordinates args) r cs t ∧
        x = type.read (.field (.ref (printName name)) (computedPlace (cs.zip shape.extents))
          shape.elem.bits) := by
  -- One argument is no constant, so no place is known in advance.
  have hlocated : ∀ l, Returns (s.locate name args (s.coordinates args)) r l t ↔
      ∃ cs, Returns (s.coordinates args) r cs t ∧
        l = ⟨printName name, shape, .computed (computedPlace (cs.zip shape.extents))⟩ := by
    intro l
    unfold locate
    simp only [hshape, hrank, ne_eq, not_true_eq_false, if_false, mapM_constant?_none hargs]
    rw [returns_bind]
    constructor
    · rintro ⟨cs, r₁, hcs, hl⟩
      rcases returns_pure.mp hl with ⟨rfl, rfl⟩
      exact ⟨cs, hcs, rfl⟩
    · rintro ⟨cs, hcs, rfl⟩
      exact ⟨cs, t, hcs, returns_pure.mpr ⟨rfl, rfl⟩⟩
  rw [lower_access haccess]
  constructor
  · rintro ⟨l, e, hl, he, rfl⟩
    rcases (hlocated l).mp hl with ⟨cs, hcs, rfl⟩
    rcases Except.ok.inj he with rfl
    exact ⟨cs, hcs, rfl⟩
  · rintro ⟨cs, hcs, rfl⟩
    exact ⟨_, _, (hlocated _).mpr ⟨cs, hcs, rfl⟩, rfl, rfl⟩

/-- An access with the wrong number of coordinates is refused. -/
theorem lower_rank (hrank : args.length ≠ shape.rank) :
    (s.lower (.call type name args callType)).run.run r
      = (unsupported (.coordinateCount name shape.rank args.length), r) := by
  refine lower_access_error haccess ?_
  unfold locate
  simp only [hshape, hrank, ne_eq, not_false_eq_true, if_true]
  rfl

/-- An access at constant coordinates is refused if one of them is outside of the box. -/
theorem lower_outside {index : List Int} (hargs : Constants args index)
    (hrank : args.length = shape.rank) (hout : ∃ p ∈ index.zip shape.extents, Outside p) :
    ∃ d p, (index.zip shape.extents)[d]? = some p ∧ Outside p ∧
      (s.lower (.call type name args callType)).run.run r
        = (unsupported (.indexOutOfBounds p.1 d name), r) := by
  rcases checkedCoordinates_outside name hout 0 with ⟨d, p, hp, hpout, hcheck⟩
  rw [Nat.zero_add] at hcheck
  refine ⟨d, p, hp, hpout, lower_access_error haccess ?_⟩
  unfold locate
  simp only [hshape, hrank, ne_eq, not_true_eq_false, if_false, hargs.mapM_eq, hcheck]
  rfl

end

/-- A variable that nothing inside the expression binds becomes the word of its name. -/
theorem lower_var (hfree : r.value? (printName name) = none)
    (hcounter : printName name ∉ s.counters) :
    Returns (s.lower (.var type name)) r (type.read (.ref (printName name))) r := by
  unfold lower variableValue
  refine returns_get_bind.mpr ?_
  simp only [hfree]
  rw [if_neg hcounter]
  exact returns_pure.mpr ⟨rfl, rfl⟩

/-- A name that is no stencil is not accessed. -/
theorem lower_undefined (haccess : (callType = .access || isStencilName name) = true)
    (hshape : s.stencil? (printName name) = none) :
    (s.lower (.call type name args callType)).run.run r = (undefinedName name "stencil", r) := by
  refine lower_access_error haccess ?_
  unfold locate
  simp only [hshape]
  rfl

end Scope

namespace Rtl

namespace Expr

variable {Γ : Typing} {s : State} {name : String} {bits flat : Nat}

/-- Bits read with a sign are the same bits. -/
theorem own_read (t : ScalarType) (e : Expr) : (t.read e).own Γ s = e.own Γ s := by
  unfold ScalarType.read
  split
  · rw [own, size, isSigned, value, extend, Nat.sub_self, Nat.add_zero, ite_self]
    rfl
  · rfl

/-- A field at a place that is worth a number is the element with that number. -/
theorem own_field {place : Expr}
    (hplace : place.value Γ s (max 32 (place.size Γ)) place.isSigned = flat)
    (hfits : flat * bits < 2 ^ 32) (hroom : flat * bits + bits ≤ Γ.width name) :
    (Expr.field (.ref name) place bits).own Γ s = digit bits (s.value name) flat := by
  have hsmall : flat * bits < 2 ^ max 32 (place.size Γ) :=
    Nat.lt_of_lt_of_le hfits (Nat.pow_le_pow_right (by omega) (Nat.le_max_left _ _))
  rw [own, value]
  simp only [hplace]
  rw [Nat.mod_eq_of_lt hsmall, size, isSigned, value, extend_false, bitsOf, if_pos hroom, digit,
    Nat.shiftRight_eq_div_pow, ← Nat.pow_mul, Nat.mul_comm]

end Expr

end Rtl

end StencilRtl
