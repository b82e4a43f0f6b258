import Mathlib.Algebra.Group.Int.Defs
import Mathlib.Algebra.Group.Nat.Defs
import StencilRtl.Proofs.Rtl.Body

/-!
# Literals of a Module

Whether the literals of a module have room for their values.

A literal is written with a width, and a value that needs more bits than that is cut without
notice. `Fits` says of an expression that none of the literals in it is cut, and of an item
that none is in any of its expressions. Plain numbers have no width of their own and are not
asked for anything. A body fits if its parts do, so what is left to check for a module are
the literals its maker writes down.

## Main definitions

* `Expr.Fits`, `Stmt.Fits`, `Item.Fits`: No literal is cut.
* `Body.Fits`: Nor is one in a body, if it can be built.

## Theorems

* `Body.Fits.join`: Bodies one after the other.
* `Body.fits_register`: A register with guarded updates.
-/

namespace StencilRtl

namespace Rtl

namespace Expr

mutual

/-- No literal in an expression is cut. -/
def Fits : Expr → Prop
  | .ref _ => True
  | .literal width v => v < 2 ^ width
  | .signedLiteral width v => -2 ^ width ≤ 2 * v ∧ 2 * v < 2 ^ width
  | .number _ => True
  | .not a => Fits a
  | .isZero a => Fits a
  | .negate a => Fits a
  | .binary _ a b => Fits a ∧ Fits b
  | .all terms => AllFit terms
  | .any terms => AllFit terms
  | .mux condition ifTrue ifFalse => Fits condition ∧ Fits ifTrue ∧ Fits ifFalse
  | .concat parts => AllFit parts
  | .element _ index => Fits index
  | .bitAt base _ => Fits base
  | .range base _ _ => Fits base
  | .part base _ _ => Fits base
  | .field base index _ => Fits base ∧ Fits index
  | .signed a => Fits a
  | .unsigned a => Fits a

/-- No literal in some expressions is cut. -/
def AllFit : List Expr → Prop
  | [] => True
  | e :: rest => Fits e ∧ AllFit rest

end

theorem allFit_iff {terms : List Expr} : AllFit terms ↔ ∀ e ∈ terms, e.Fits := by
  induction terms with
  | nil => exact iff_of_true trivial fun e he => absurd he List.not_mem_nil
  | cons e rest ih => rw [AllFit, List.forall_mem_cons, ih]

theorem fits_all {terms : List Expr} (h : ∀ e ∈ terms, e.Fits) : (Expr.all terms).Fits :=
  allFit_iff.mpr h

theorem fits_hasValue {name : String} {width v : Nat} (h : v < 2 ^ width) :
    (Expr.hasValue name width v).Fits := ⟨trivial, h⟩

theorem fits_plus {name : String} {width v : Nat} (h : v < 2 ^ width) :
    (Expr.plus name width v).Fits := ⟨trivial, h⟩

end Expr

namespace Stmt

mutual

/-- No literal in a statement is cut. -/
def Fits : Stmt → Prop
  | .update target value => target.Fits ∧ value.Fits
  | .set target value => target.Fits ∧ value.Fits
  | .choose branches otherwise => BranchesFit branches ∧ ElseFits otherwise
  | .case subject branches otherwise => subject.Fits ∧ CasesFit branches ∧ ElseFits otherwise

/-- No literal in some statements is cut. -/
def AllFit : List Stmt → Prop
  | [] => True
  | s :: rest => Fits s ∧ AllFit rest

/-- No literal in guarded bodies is cut. -/
def BranchesFit : List (Expr × List Stmt) → Prop
  | [] => True
  | (guard, body) :: rest => guard.Fits ∧ AllFit body ∧ BranchesFit rest

/-- No literal in labelled bodies is cut. -/
def CasesFit : List (Int × List Stmt) → Prop
  | [] => True
  | (_, body) :: rest => AllFit body ∧ CasesFit rest

/-- No literal in the last body is cut. -/
def ElseFits : Option (List Stmt) → Prop
  | none => True
  | some body => AllFit body

end

end Stmt

/-- No literal in an item is cut. -/
def Item.Fits : Item → Prop
  | .wire _ _ => True
  | .reg _ _ => True
  | .memory _ _ _ => True
  | .assign target value => target.Fits ∧ value.Fits
  | .process _ body => Stmt.AllFit body
  | .submodule _ _ connections => ∀ c ∈ connections, c.2.Fits

namespace Body

/-- No literal in a body is cut, if it can be built. -/
def Fits (b : Body) : Prop := ∀ items, b = .ok items → ∀ i ∈ items, i.Fits

theorem Fits.join {bodies : List Body} (h : ∀ b ∈ bodies, b.Fits) : (Body.join bodies).Fits := by
  induction bodies with
  | nil =>
      intro items hitems
      rw [← Except.ok.inj hitems]
      exact fun i hi => absurd hi List.not_mem_nil
  | cons b rest ih =>
      rw [List.forall_mem_cons] at h
      intro items hitems
      rcases Fallible.bind_ok.mp hitems with ⟨own, hown, hitems⟩
      rcases Fallible.bind_ok.mp hitems with ⟨more, hmore, hitems⟩
      rw [← Except.ok.inj hitems]
      exact List.forall_mem_append.mpr ⟨h.1 own hown, ih h.2 more hmore⟩

theorem fits_wire (name : String) (width : Nat) : (wire name width).Fits := by
  intro items hitems
  rw [(wire_ok hitems).2]
  exact List.forall_mem_singleton.mpr trivial

theorem fits_reg (name : String) (width : Nat) : (reg name width).Fits := by
  intro items hitems
  rw [(reg_ok hitems).2]
  exact List.forall_mem_singleton.mpr trivial

theorem fits_assign (name : String) {value : Expr} (h : value.Fits) : (assign name value).Fits := by
  intro items hitems
  rw [← Except.ok.inj hitems]
  exact List.forall_mem_singleton.mpr ⟨trivial, h⟩

theorem fits_net (name : String) (width : Nat) {value : Expr} (h : value.Fits) :
    (net name width value).Fits :=
  .join (List.forall_mem_cons.mpr ⟨fits_wire name width,
    List.forall_mem_singleton.mpr (fits_assign name h)⟩)

theorem branchesFit_updates (target : String) {updates : List (Expr × Expr)}
    (hupdates : ∀ u ∈ updates, u.1.Fits ∧ u.2.Fits) :
    Stmt.BranchesFit (updates.map fun u => (u.1, [.update (.ref target) u.2])) := by
  induction updates with
  | nil => trivial
  | cons u more ih =>
      rw [List.forall_mem_cons] at hupdates
      exact ⟨hupdates.1.1, ⟨⟨trivial, hupdates.1.2⟩, trivial⟩, ih hupdates.2⟩

/-- A register is written with its reset value, its guards and its updates. -/
theorem fits_register (target : String) {initial : Expr} {updates : List (Expr × Expr)}
    (hinitial : initial.Fits) (hupdates : ∀ u ∈ updates, u.1.Fits ∧ u.2.Fits) :
    (register target initial updates).Fits := by
  intro items hitems
  rw [← Except.ok.inj hitems]
  exact List.forall_mem_singleton.mpr ⟨⟨⟨trivial, ⟨⟨trivial, hinitial⟩, trivial⟩,
    branchesFit_updates target hupdates⟩, trivial⟩, trivial⟩

end Body

end Rtl

end StencilRtl
