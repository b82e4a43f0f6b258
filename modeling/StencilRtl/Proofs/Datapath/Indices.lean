import StencilRtl.Proofs.Datapath.Lowering
import StencilRtl.Proofs.LoopControl.Nest
import StencilRtl.Proofs.Rtl.Residues
import StencilRtl.Proofs.Words

/-!
# Index Arithmetic

What becomes of arithmetic on loop indices in hardware.

Indices are integers of 32 bits, and so is everything that is computed from them. In hardware
they are counters, which have no more bits than the last value needs and no sign. Constants have
both, 32 bits and a sign, but an operation has a sign only if all its operands have one.

Sums, differences and products do not mind. Whatever size an expression is brought to, its value
there is the word of the integer, so a difference that went below zero comes out as it should in
the end. A comparison is not brought to any size from outside. It looks at its sides as they are
in the larger size of the two, without a sign as soon as a counter takes part in either of them:
a difference below zero is then a large number, and in a comparison of counters alone it is not
even as large as a word. So a comparison is only good for what its sides leave of the integers,
and `Kept` says of an expression that every comparison that matters is.

Numbers that fit the larger size are compared as they are. With a constant or anything else of 32
bits on either side nothing is lost but the sign. Equality is kept then, and an order is kept just
if both sides have the same sign.

## Main definitions

* `Expr.IsIndex`: Expressions that compute with loop indices.
* `Expr.int32`: Their value, in integers of 32 bits.
* `Expr.indexText`: What they are lowered to.
* `BinaryOp.Compares`: A comparison comes out on words as it does on integers.
* `Expr.sidesSigned`, `Expr.sideSize`: How the sides of a comparison are read.
* `Expr.Kept`: All comparisons that matter do.
* `HoldsIndices`: Signals hold the indices of some loops.

## Theorems

* `Expr.IsIndex.lower`: Expressions of indices are lowered.
* `Expr.IsIndex.spells`: Their values in all sizes.
* `Expr.assigned_relation_iff`: When a comparison comes out as it should.
* `index_value`: What index arithmetic is worth in hardware.
-/

namespace StencilRtl

open Rtl

namespace BinaryOp

/-- The operators of index arithmetic that compute. -/
def arithmetic : List BinaryOp := [.add, .sub, .mul]

/-- The operators of index arithmetic that compare. -/
def relations : List BinaryOp := [.eq, .ne, .lt, .le, .gt, .ge]

/-- Whether two integers are related. -/
def holds (a b : Int) : BinaryOp → Bool
  | .eq => a = b
  | .ne => a ≠ b
  | .lt => a < b
  | .le => a ≤ b
  | .gt => b < a
  | .ge => b ≤ a
  | _ => false

/-- What an operator of index arithmetic makes of two integers of 32 bits. -/
def int32 (a b : Int32) : BinaryOp → Int32
  | .add => a + b
  | .sub => a - b
  | .mul => a * b
  | op => if op.holds a.toInt b.toInt then 1 else 0

/-- A comparison comes out as it does on integers: both sides have a sign, or what is left of
    them in some bits is related as they are. -/
def Compares (op : BinaryOp) (signed : Bool) (width : Nat) (a b : Int) : Prop :=
  signed = true ∨ op.holds (a % 2 ^ width) (b % 2 ^ width) = op.holds a b

instance (op : BinaryOp) (signed : Bool) (width : Nat) (a b : Int) :
    Decidable (op.Compares signed width a b) :=
  inferInstanceAs (Decidable (_ ∨ _))

end BinaryOp

namespace Expr

/-- Expressions that compute with loop indices: constants, indices, sums, differences, products,
    comparisons and choices. -/
inductive IsIndex (counters : List String) : Expr → Prop
  | constant {value : Int64} (hlow : -2 ^ 31 ≤ value.toInt) (hhigh : value.toInt < 2 ^ 31) :
      IsIndex counters (.intImm (.int 32) value)
  | index {name : String} (hname : printName name ∈ counters) :
      IsIndex counters (.var (.int 32) name)
  | arithmetic {op : BinaryOp} {a b : Expr} (hop : op ∈ BinaryOp.arithmetic)
      (ha : IsIndex counters a) (hb : IsIndex counters b) : IsIndex counters (.binary op a b)
  | relation {op : BinaryOp} {a b : Expr} (hop : op ∈ BinaryOp.relations)
      (ha : IsIndex counters a) (hb : IsIndex counters b) : IsIndex counters (.binary op a b)
  | select {condition ifTrue ifFalse : Expr} (hcondition : IsIndex counters condition)
      (htrue : IsIndex counters ifTrue) (hfalse : IsIndex counters ifFalse) :
      IsIndex counters (.select condition ifTrue ifFalse)

/-- The value of an expression of indices in integers of 32 bits. -/
def int32 (index : String → Int32) : Expr → Int32
  | .intImm _ value => value.toInt32
  | .var _ name => index (printName name)
  | .binary op a b => op.int32 (int32 index a) (int32 index b)
  | .select condition ifTrue ifFalse =>
      if int32 index condition ≠ 0 then int32 index ifTrue else int32 index ifFalse
  | _ => 0

/-- What an expression of indices is lowered to. -/
def indexText : Expr → Rtl.Expr
  | .intImm type value => type.intLiteral value
  | .var _ name => .ref (printName name)
  | .binary op a b => op.apply (indexText a) (indexText b)
  | .select condition ifTrue ifFalse =>
      .mux (indexText condition) (indexText ifTrue) (indexText ifFalse)
  | _ => .number 0

/-- Whether the sides of a comparison are read with their signs. -/
def sidesSigned (a b : Expr) : Bool := a.indexText.isSigned && b.indexText.isSigned

/-- The size the sides of a comparison are brought to. -/
def sideSize (Γ : Typing) (a b : Expr) : Nat := max (a.indexText.size Γ) (b.indexText.size Γ)

/-- All comparisons that matter for the value of an expression come out as on integers, and so do
    the conditions of choices. -/
def Kept (Γ : Typing) (index : String → Int32) : Expr → Prop
  | .binary op a b =>
      Kept Γ index a ∧ Kept Γ index b ∧ (op ∈ BinaryOp.relations →
        op.Compares (sidesSigned a b) (sideSize Γ a b) (int32 index a).toInt
          (int32 index b).toInt)
  | .select condition ifTrue ifFalse =>
      Kept Γ index condition ∧
        ((int32 index condition).toInt % 2 ^ condition.indexText.size Γ = 0 →
          int32 index condition = 0) ∧
        if int32 index condition ≠ 0 then Kept Γ index ifTrue else Kept Γ index ifFalse
  | _ => True

end Expr

/-- Signals hold the indices of some loops, which are integers of 32 bits, in counters of the
    width the loops have. -/
structure HoldsIndices (vars : List LoopVar) (Γ : Typing) (σ : State) : Prop where
  range : ∀ v ∈ vars, v.min ≤ σ.value v.name ∧ σ.value v.name < v.min + v.extent
  width : ∀ v ∈ vars, v.width = .ok (Γ.width v.name)
  int32 : ∀ v ∈ vars, v.min + v.extent ≤ 2 ^ 31

/-- The indices a state holds, as integers of 32 bits. -/
def Rtl.State.indices (σ : State) (name : String) : Int32 := Int32.ofNat (σ.value name)

/-- An expression spells an integer: brought to any size of at most 32 bits it has the word of the
    integer there. It is only read with a sign if it has one. -/
def Rtl.Expr.Spells (Γ : Typing) (σ : State) (x : Rtl.Expr) (i : Int32) : Prop :=
  ∀ width signed, x.size Γ ≤ width → width ≤ 32 → (signed = true → x.isSigned = true) →
    x.value Γ σ width signed = ofInt width i.toInt

/-- An expression that spells an integer is worth it in a target of 32 bits. -/
theorem Rtl.Expr.Spells.assigned {Γ : Typing} {σ : State} {x : Rtl.Expr} {i : Int32}
    (h : x.Spells Γ σ i) (hsize : x.size Γ ≤ 32) : x.assigned Γ σ 32 = ofInt 32 i.toInt := by
  rw [Rtl.Expr.assigned, Nat.max_eq_left hsize, h 32 _ hsize (Nat.le_refl 32) id,
    Nat.mod_eq_of_lt (ofInt_lt 32 _)]

/-- A word of 32 bits read with its sign is the integer. -/
theorem toSigned_int32 (i : Int32) : toSigned 32 (ofInt 32 i.toInt) = i.toInt :=
  toSigned_ofInt i.le_toInt i.toInt_lt

theorem ofInt_int32_inj {i j : Int32} :
    ofInt 32 i.toInt = ofInt 32 j.toInt ↔ i.toInt = j.toInt := by
  refine ⟨fun h => ?_, fun h => by rw [h]⟩
  rw [← toSigned_int32 i, h, toSigned_int32]

/-- The truth of a comparison as a word. -/
theorem ofInt_truth {width : Nat} (h : 0 < width) (b : Bool) :
    ofInt width (if b then (1 : Int32) else 0).toInt = if b then 1 else 0 := by
  have hone : 1 < 2 ^ width := Nat.one_lt_two_pow (Nat.ne_of_gt h)
  cases b with
  | true => exact ofInt_of_lt hone
  | false => exact ofInt_of_lt (Nat.two_pow_pos width)

namespace BinaryOp

variable {op : BinaryOp}

/-- An operator that computes becomes one that computes the same on words. -/
theorem apply_arithmetic (h : op ∈ arithmetic) : ∃ operator : Operator,
    (∀ a b, op.apply a b = .binary operator a b) ∧ operator.rule = .shared ∧
      ∀ unknown width signed (i j : Int32), width ≤ 32 →
        operator.compute unknown width signed (ofInt width i.toInt) (ofInt width j.toInt)
          = ofInt width (op.int32 i j).toInt := by
  simp only [arithmetic, List.mem_cons, List.not_mem_nil, or_false] at h
  rcases h with rfl | rfl | rfl
  · refine ⟨.add, fun _ _ => rfl, rfl, fun unknown width signed i j hwidth => ?_⟩
    rw [Operator.compute_add, int32, Int32.toInt_add, ofInt_bmod hwidth]
  · refine ⟨.sub, fun _ _ => rfl, rfl, fun unknown width signed i j hwidth => ?_⟩
    rw [Operator.compute_sub, int32, Int32.toInt_sub, ofInt_bmod hwidth]
  · refine ⟨.mul, fun _ _ => rfl, rfl, fun unknown width signed i j hwidth => ?_⟩
    rw [Operator.compute_mul, int32, Int32.toInt_mul, ofInt_bmod hwidth]

theorem int32_relation (h : op ∈ relations) (i j : Int32) :
    op.int32 i j = if op.holds i.toInt j.toInt then 1 else 0 := by
  revert h
  cases op <;> first | exact fun _ => rfl | exact fun h => absurd h (by decide)

/-- An operator that compares becomes one that compares what is left of the integers, or the
    integers themselves if both words have a sign. -/
theorem apply_relation (h : op ∈ relations) : ∃ operator : Operator,
    (∀ a b, op.apply a b = .binary operator a b) ∧ operator.rule = .compared ∧
      (∀ unknown width i j, operator.compute unknown width false (ofInt width i) (ofInt width j)
        = if op.holds (i % 2 ^ width) (j % 2 ^ width) then 1 else 0) ∧
      ∀ unknown (i j : Int32), operator.compute unknown 32 true (ofInt 32 i.toInt)
        (ofInt 32 j.toInt) = if op.holds i.toInt j.toInt then 1 else 0 := by
  -- Words are compared as natural numbers, or as what they spell with a sign.
  simp only [relations, List.mem_cons, List.not_mem_nil, or_false] at h
  rcases h with rfl | rfl | rfl | rfl | rfl | rfl
  all_goals
    refine ⟨_, fun _ _ => rfl, rfl, fun _ _ _ _ => ?_, fun _ _ _ => ?_⟩
    · simp [Operator.compute, bitOf, holds, ← cast_ofInt]
    · simp [Operator.compute, bitOf, holds, toSigned_int32, ofInt_int32_inj]

/-- Numbers that fit are compared as they are, with a sign or without. -/
theorem compares_of_fits {signed : Bool} {width : Nat} {i j : Int} (hi : 0 ≤ i ∧ i < 2 ^ width)
    (hj : 0 ≤ j ∧ j < 2 ^ width) : op.Compares signed width i j := by
  rw [Compares, Int.emod_eq_of_lt hi.1 hi.2, Int.emod_eq_of_lt hj.1 hj.2]
  exact .inr rfl

/-- Without signs, but in 32 bits, equality is kept, and an order is kept just if both integers
    have the same sign. -/
theorem compares_word_iff (hop : op ∈ relations) (i j : Int32) :
    op.Compares false 32 i.toInt j.toInt ↔
      op ∈ [.eq, .ne] ∨ (0 ≤ i.toInt ↔ 0 ≤ j.toInt) := by
  have hlow := i.le_toInt
  have hhigh := i.toInt_lt
  have hlow' := j.le_toInt
  have hhigh' := j.toInt_lt
  -- A negative integer leaves a number above all that the others leave.
  simp only [relations, List.mem_cons, List.not_mem_nil, or_false] at hop
  rcases hop with rfl | rfl | rfl | rfl | rfl | rfl
  all_goals
    simp [Compares, holds]
    omega

end BinaryOp

namespace Expr

variable {counters : List String} {Γ : Typing} {σ : State} {e : Expr}

/-- The operands of an operator are expressions of indices as well. -/
theorem IsIndex.sides {op : BinaryOp} {a b : Expr} (he : (Expr.binary op a b).IsIndex counters) :
    a.IsIndex counters ∧ b.IsIndex counters := by
  cases he with
  | arithmetic _ ha hb | relation _ ha hb => exact ⟨ha, hb⟩

/-- Expressions of indices are lowered where no names are bound. -/
theorem IsIndex.lower {s : Scope} {r : LoweringState} (he : e.IsIndex s.counters)
    (hfree : r.bound = []) : Returns (s.lower e) r e.indexText r := by
  induction he with
  | constant => exact returns_pure.mpr ⟨rfl, rfl⟩
  | @index name hname =>
      -- A bound name would hide the loop of that name.
      have hnone : r.value? (printName name) = none := by
        rw [LoweringState.value?, hfree]
        rfl
      refine returns_get_bind.mpr ?_
      simp only [hnone]
      rw [if_pos hname]
      exact returns_pure.mpr ⟨rfl, rfl⟩
  | arithmetic _ _ _ iha ihb | relation _ _ _ iha ihb =>
      rw [Scope.lower]
      exact returns_bind.mpr ⟨_, r, iha, returns_bind.mpr ⟨_, r, ihb, returns_pure.mpr ⟨rfl, rfl⟩⟩⟩
  | select _ _ _ ihc iht ihf =>
      rw [Scope.lower]
      exact returns_bind.mpr ⟨_, r, ihc, returns_bind.mpr ⟨_, r, iht, returns_bind.mpr
        ⟨_, r, ihf, returns_pure.mpr ⟨rfl, rfl⟩⟩⟩⟩

section

variable (hwidths : ∀ name ∈ counters, 0 < Γ.width name ∧ Γ.width name ≤ 32)

include hwidths

/-- No expression of indices has more than 32 bits, and what has a sign has all of them. -/
theorem IsIndex.size_le (he : e.IsIndex counters) : 0 < e.indexText.size Γ ∧
    e.indexText.size Γ ≤ 32 ∧ (e.indexText.isSigned = true → e.indexText.size Γ = 32) := by
  induction he with
  | constant => exact ⟨Nat.succ_pos 31, Nat.le_refl 32, fun _ => rfl⟩
  | index hname =>
      rcases hwidths _ hname with ⟨hpos, hle⟩
      exact ⟨hpos, hle, fun hsigned => absurd hsigned (by simp [indexText, Rtl.Expr.isSigned])⟩
  | arithmetic hop _ _ iha ihb =>
      rcases BinaryOp.apply_arithmetic hop with ⟨operator, happly, hrule, _⟩
      simp only [indexText, happly, Rtl.Expr.size, Rtl.Expr.isSigned, hrule, Bool.and_eq_true]
      exact ⟨by omega, by omega, fun hsigned => by rw [iha.2.2 hsigned.1, ihb.2.2 hsigned.2]; rfl⟩
  -- A relation has one bit, however wide its sides are.
  | relation hop _ _ iha ihb =>
      rcases BinaryOp.apply_relation hop with ⟨operator, happly, hrule, _⟩
      simp only [indexText, happly, Rtl.Expr.size, Rtl.Expr.isSigned, hrule]
      exact ⟨Nat.one_pos, by decide, fun hsigned => absurd hsigned (by simp)⟩
  | select _ _ _ _ iht ihf =>
      simp only [indexText, Rtl.Expr.size, Rtl.Expr.isSigned, Bool.and_eq_true]
      exact ⟨by omega, by omega, fun hsigned => by rw [iht.2.2 hsigned.1, ihf.2.2 hsigned.2]; rfl⟩

/-- A comparison of two sides that spell integers compares them, or what their sizes leave of
    them. -/
theorem value_relation {op : BinaryOp} {a b : Expr} (hop : op ∈ BinaryOp.relations)
    (ha : a.IsIndex counters) (hb : b.IsIndex counters) {i j : Int32}
    (hi : a.indexText.Spells Γ σ i) (hj : b.indexText.Spells Γ σ j) (width : Nat) (signed : Bool) :
    (indexText (.binary op a b)).value Γ σ width signed =
      if (if sidesSigned a b then op.holds i.toInt j.toInt
        else op.holds (i.toInt % 2 ^ sideSize Γ a b) (j.toInt % 2 ^ sideSize Γ a b))
      then 1 else 0 := by
  rcases BinaryOp.apply_relation hop with ⟨operator, happly, hrule, hwords, hsigned⟩
  rcases ha.size_le hwidths with ⟨_, hle, hfull⟩
  rcases hb.size_le hwidths with ⟨_, hle', hfull'⟩
  have hroom := Nat.max_le.mpr ⟨hle, hle'⟩
  rw [indexText, happly, Rtl.Expr.value, sidesSigned, sideSize]
  simp only [hrule]
  rw [hi _ _ (Nat.le_max_left ..) hroom fun h => (Bool.and_eq_true _ _ ▸ h).1,
    hj _ _ (Nat.le_max_right ..) hroom fun h => (Bool.and_eq_true _ _ ▸ h).2]
  cases hboth : a.indexText.isSigned && b.indexText.isSigned with
  | true =>
      rcases Bool.and_eq_true_iff.mp hboth with ⟨ha', hb'⟩
      rw [hfull ha', hfull' hb', Nat.max_self, hsigned, if_pos rfl]
  | false => rw [hwords, if_neg Bool.false_ne_true]

/-- An expression of indices spells its value if all comparisons are kept. -/
theorem IsIndex.spells (hvalues : ∀ name ∈ counters, σ.value name < 2 ^ Γ.width name)
    (he : e.IsIndex counters) (hkept : e.Kept Γ σ.indices) :
    e.indexText.Spells Γ σ (e.int32 σ.indices) := by
  -- All sizes at once, since a comparison looks at its sides in a size of its own. Only a branch
  -- that is chosen has to be kept.
  induction he with
  | @constant value =>
      intro width signed hsize hwidth _
      have hfull : width = 32 := Nat.le_antisymm hwidth hsize
      have htext : (intImm (.int 32) value).indexText = .signedLiteral 32 value.toInt := rfl
      rw [hfull, htext, Rtl.Expr.value, extend_self, int32, Int64.toInt_toInt32,
        ofInt_bmod (Nat.le_refl 32)]
  | @index name hname =>
      intro width signed hsize hwidth hsigned
      have hunsigned : signed = false := Bool.eq_false_of_not_eq_true fun h => by
        simpa [indexText, Rtl.Expr.isSigned] using hsigned h
      have hlt := Nat.lt_of_lt_of_le (hvalues _ hname) (Nat.pow_le_pow_right Nat.two_pos hsize)
      have hindex : (σ.indices (printName name)).toInt
          = (σ.value (printName name) : Int).bmod (2 ^ 32) := Int32.toInt_ofNat'
      rw [indexText, Rtl.Expr.value, hunsigned, Rtl.Expr.extend_false, int32, hindex,
        ofInt_bmod hwidth, ofInt_of_lt hlt]
  | @arithmetic op a b hop ha hb iha ihb =>
      intro width signed hsize hwidth hsigned
      rcases BinaryOp.apply_arithmetic hop with ⟨operator, happly, hrule, hcompute⟩
      simp only [indexText, happly, Rtl.Expr.size, Rtl.Expr.isSigned, hrule, Bool.and_eq_true]
        at hsize hsigned
      rw [indexText, happly, Rtl.Expr.value]
      simp only [hrule]
      rw [iha hkept.1 _ _ (by omega) hwidth fun h => (hsigned h).1,
        ihb hkept.2.1 _ _ (by omega) hwidth fun h => (hsigned h).2, hcompute _ _ _ _ _ hwidth,
        int32]
  | @relation op a b hop ha hb iha ihb =>
      intro width signed hsize hwidth _
      rcases BinaryOp.apply_relation hop with ⟨operator, happly, hrule, _⟩
      simp only [indexText, happly, Rtl.Expr.size, hrule] at hsize
      rw [value_relation hwidths hop ha hb (iha hkept.1) (ihb hkept.2.1), int32,
        BinaryOp.int32_relation hop, ofInt_truth hsize]
      rcases hkept.2.2 hop with hboth | hsame
      · rw [if_pos hboth]
      · rw [hsame, ite_self]
  | @select condition ifTrue ifFalse hc ht hf ihc iht ihf =>
      intro width signed hsize hwidth hsigned
      simp only [indexText, Rtl.Expr.size, Rtl.Expr.isSigned, Bool.and_eq_true] at hsize hsigned
      rcases hkept with ⟨hcondition, hzero, hbranch⟩
      have hvalue := ihc hcondition _ _ (Nat.le_refl _) (hc.size_le hwidths).2.1 id
      rw [indexText, Rtl.Expr.value, hvalue, int32]
      by_cases hfalse : condition.int32 σ.indices = 0
      · have hword : Rtl.ofInt (condition.indexText.size Γ) (0 : Int32).toInt = 0 :=
          ofInt_of_lt (Nat.two_pow_pos _)
        rw [if_neg (not_not.mpr hfalse)] at hbranch ⊢
        rw [hfalse, if_neg (not_not.mpr hword)]
        exact ihf hbranch _ _ (by omega) hwidth fun h => (hsigned h).2
      · -- A condition that holds must not lose all its bits.
        have hword :
            Rtl.ofInt (condition.indexText.size Γ) (condition.int32 σ.indices).toInt ≠ 0 := by
          intro hnone
          refine hfalse (hzero ?_)
          rw [← cast_ofInt, hnone, Nat.cast_zero]
        rw [if_pos hfalse] at hbranch ⊢
        rw [if_pos hword]
        exact iht hbranch _ _ (by omega) hwidth fun h => (hsigned h).1

/-- A comparison of two sides that spell integers is worth the truth about them just if it is
    kept. -/
theorem assigned_relation_iff {op : BinaryOp} {a b : Expr} (hop : op ∈ BinaryOp.relations)
    (ha : a.IsIndex counters) (hb : b.IsIndex counters) {i j : Int32}
    (hi : a.indexText.Spells Γ σ i) (hj : b.indexText.Spells Γ σ j) :
    (indexText (.binary op a b)).assigned Γ σ 32 = Rtl.ofInt 32 (op.int32 i j).toInt ↔
      op.Compares (sidesSigned a b) (sideSize Γ a b) i.toInt j.toInt := by
  rw [Rtl.Expr.assigned, value_relation hwidths hop ha hb hi hj, BinaryOp.int32_relation hop,
    ofInt_truth (by decide), BinaryOp.Compares]
  generalize op.holds i.toInt j.toInt = whole
  generalize op.holds (i.toInt % _) (j.toInt % _) = left
  cases sidesSigned a b <;> cases whole <;> cases left <;> decide

end

end Expr

/-- A counter has between one and 32 bits, and the index it holds fits. -/
theorem HoldsIndices.counter {vars : List LoopVar} {Γ : Typing} {σ : State}
    (h : HoldsIndices vars Γ σ) : ∀ name ∈ vars.map LoopVar.name,
      (0 < Γ.width name ∧ Γ.width name ≤ 32) ∧ σ.value name < 2 ^ Γ.width name := by
  intro name hname
  rcases List.mem_map.mp hname with ⟨v, hv, rfl⟩
  have hrange := h.range v hv
  have hint32 := h.int32 v hv
  have hruns : v.Runs := by
    rcases Fallible.bind_ok.mp (h.width v hv) with ⟨last, hlast, _⟩
    exact ⟨by omega, last, hlast⟩
  rw [Except.ok.inj ((h.width v hv).symm.trans hruns.width_eq)]
  have hroom := le_two_pow_bitsNeededFor (v.min + v.extent - 1 + 1)
  have hle : bitsNeededFor (v.min + v.extent - 1 + 1) ≤ 31 :=
    bitsNeededFor_le (by omega) (by decide)
  exact ⟨⟨bitsNeededFor_pos _, by omega⟩, by omega⟩

/-- Expressions of indices are lowered, and in 32 bits their text has the word of their value in
integers of 32 bits if every comparison in them is kept. That is needed: a comparison whose sides
are as they should be comes out as it should just if it is kept. It is kept whenever both sides are
numbers that fit the larger size of the two. With a side of 32 bits, unless both have a sign, it is
kept just if it asks for equality or both sides are on the same side of zero. -/
theorem index_value {vars : List LoopVar} {s : Scope} {Γ : Typing} {σ : State} {e : Expr}
    {r : LoweringState} (hcounters : s.counters = vars.map LoopVar.name)
    (hindices : HoldsIndices vars Γ σ) (he : e.IsIndex s.counters) (hfree : r.bound = []) :
    Returns (s.lower e) r e.indexText r ∧
      (e.Kept Γ σ.indices →
        e.indexText.assigned Γ σ 32 = ofInt 32 (e.int32 σ.indices).toInt) ∧
      ∀ op a b, e = .binary op a b → op ∈ BinaryOp.relations → a.Kept Γ σ.indices →
        b.Kept Γ σ.indices →
          (e.indexText.assigned Γ σ 32 = ofInt 32 (e.int32 σ.indices).toInt ↔ e.Kept Γ σ.indices) ∧
          ((∀ side ∈ [a, b], 0 ≤ (side.int32 σ.indices).toInt ∧
            (side.int32 σ.indices).toInt < 2 ^ Expr.sideSize Γ a b) → e.Kept Γ σ.indices) ∧
          (Expr.sideSize Γ a b = 32 → Expr.sidesSigned a b = false →
            (e.Kept Γ σ.indices ↔ op ∈ [.eq, .ne] ∨
              (0 ≤ (a.int32 σ.indices).toInt ↔ 0 ≤ (b.int32 σ.indices).toInt))) := by
  refine ⟨he.lower hfree, ?_⟩
  -- From here on the counters are those of the loops, which have between one and 32 bits.
  rw [hcounters] at he
  have hwidths := fun name hname => (hindices.counter name hname).1
  have hvalues := fun name hname => (hindices.counter name hname).2
  refine ⟨fun hkept => (he.spells hwidths hvalues hkept).assigned (he.size_le hwidths).2.1, ?_⟩
  rintro op a b rfl hop ha hb
  obtain ⟨haindex, hbindex⟩ := he.sides
  have hiff : (Expr.binary op a b).Kept Γ σ.indices ↔
      op.Compares (Expr.sidesSigned a b) (Expr.sideSize Γ a b) (a.int32 σ.indices).toInt
        (b.int32 σ.indices).toInt :=
    ⟨fun h => h.2.2 hop, fun h => ⟨ha, hb, fun _ => h⟩⟩
  refine ⟨?_, fun hfits => hiff.mpr ?_, fun hsize hsigned => ?_⟩
  · rw [hiff, Expr.int32]
    exact Expr.assigned_relation_iff hwidths hop haindex hbindex
      (haindex.spells hwidths hvalues ha) (hbindex.spells hwidths hvalues hb)
  · exact BinaryOp.compares_of_fits (hfits a (by simp)) (hfits b (by simp))
  · rw [hiff, hsize, hsigned]
    exact BinaryOp.compares_word_iff hop _ _

/-- The index before an index, compared with a constant. -/
def previousIndex (op : BinaryOp) (value : Int64) : Expr :=
  .binary op (.binary .sub (.var (.int 32) "x") (.intImm (.int 32) 1)) (.intImm (.int 32) value)

theorem isIndex_previousIndex {op : BinaryOp} (hop : op ∈ BinaryOp.relations) {value : Int64}
    (hlow : -2 ^ 31 ≤ value.toInt) (hhigh : value.toInt < 2 ^ 31) :
    (previousIndex op value).IsIndex ["x"] :=
  .relation hop (.arithmetic (by decide) (.index (by decide +kernel))
    (.constant (by decide) (by decide))) (.constant hlow hhigh)

/-- Counters for the indices below four. -/
def fourIndices : Typing := ⟨fun _ => 2, fun _ => 1, fun _ => 1⟩

/-- All counters are at the first index. -/
def firstIndex : State := ⟨fun _ => 0, fun _ _ => 0, 0⟩

theorem holdsIndices_firstIndex : HoldsIndices [⟨"x", 0, 4⟩] fourIndices firstIndex := by
  have hruns : (⟨"x", 0, 4⟩ : LoopVar).Runs := ⟨by decide, 3, rfl⟩
  refine ⟨fun v hv => ?_, fun v hv => ?_, fun v hv => ?_⟩ <;> cases List.mem_singleton.mp hv
  · decide
  · exact hruns.width_eq.trans (by decide +kernel)
  · decide

theorem index_value_previousIndex :
    HoldsIndices [⟨"x", 0, 4⟩] fourIndices firstIndex ∧
      (previousIndex .eq (-1)).IsIndex ["x"] ∧
      Returns (Scope.lower ⟨[], ["x"]⟩ (previousIndex .eq (-1))) .initial
        (previousIndex .eq (-1)).indexText .initial ∧
      (previousIndex .eq (-1)).indexText.assigned fourIndices firstIndex 32 = 1 := by
  have hindex : (previousIndex .eq (-1)).IsIndex ["x"] :=
    isIndex_previousIndex (by decide) (by decide) (by decide)
  have hvalue := index_value (s := ⟨[], ["x"]⟩) (r := .initial) rfl holdsIndices_firstIndex hindex
    rfl
  have hkept := ((hvalue.2.2 .eq _ _ rfl (by decide) ⟨trivial, trivial, by decide⟩ trivial).2.2
    rfl rfl).mpr (.inl (by decide))
  exact ⟨holdsIndices_firstIndex, hindex, hvalue.1, (hvalue.2.1 hkept).trans (by decide +kernel)⟩

/-- The index before the first one is not below zero in hardware. -/
theorem previousIndex_lt_zero :
    HoldsIndices [⟨"x", 0, 4⟩] fourIndices firstIndex ∧ (previousIndex .lt 0).IsIndex ["x"] ∧
      Returns (Scope.lower ⟨[], ["x"]⟩ (previousIndex .lt 0)) .initial
        (previousIndex .lt 0).indexText .initial ∧
      (previousIndex .lt 0).indexText.text = "((x - 32'sd1) < 32'sd0)" ∧
      (previousIndex .lt 0).int32 firstIndex.indices = 1 ∧
      (previousIndex .lt 0).indexText.assigned fourIndices firstIndex 32 = 0 := by
  have hindex : (previousIndex .lt 0).IsIndex ["x"] :=
    isIndex_previousIndex (by decide) (by decide) (by decide)
  exact ⟨holdsIndices_firstIndex, hindex, hindex.lower rfl, by decide +kernel, by decide +kernel,
    by decide +kernel⟩

end StencilRtl
