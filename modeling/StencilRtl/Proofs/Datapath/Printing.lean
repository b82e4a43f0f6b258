import StencilRtl.Hardware.Lowering
import StencilRtl.Proofs.Datapath.Lowering
import StencilRtl.Proofs.Rtl.Atoms

/-!
# Lowering Prints Atoms

Expressions are lowered to texts that can be put anywhere.

The text of an expression is put into the texts of others, into part selects, and into the
assignments of wires, and never in brackets of its own. So whatever an expression is, it has
to be printed as an atom, given that the names bound around it stand for atoms. The only part
that is less is a coordinate that is a negative number, and it never leaves the brackets of an
element.

What is kept along a lowering is kept on the way to a failure as well: the names bound around
the expression are the same as before, and the wires left behind have atoms for values. A
computation with these properties is one that `Prints`, and there is one rule for each way
computations are put together.

## Main definitions

* `LoweringState.Leaves`: What a lowering leaves of a state, however it ends.
* `Lowering.Prints`: A computation that returns and leaves atoms.

## Theorems

* `Lowering.Prints.bind`, `Lowering.Prints.binding`: Computations one after the other, and
  inside of a scope.
* `Scope.prints_lower`: Lowering an expression prints.
* `Scope.lower_isAtom`: The text of an expression is an atom, and no binding is left behind.
-/

namespace StencilRtl

open Rtl

open Rtl.Expr (isAtomic_name isAtomic_numbered isAtomic_literal isAtomic_signedLiteral isAtomic_not
  isAtomic_isZero isAtomic_negate isAtomic_signed isAtomic_unsigned isAtomic_binary isAtomic_mux
  isAtomic_part isAtomic_field isEnclosable_number)

/-- What a lowering leaves of a state, however it ends: the names bound as before, and behind
    the wires still to be declared some whose values are atoms. -/
structure LoweringState.Leaves (s t : LoweringState) : Prop where
  bound : t.bound = s.bound
  pending : ∃ wires, t.pending = s.pending ++ wires ∧ ∀ c ∈ wires, c.value.IsAtomic

/-- The names bound around an expression stand for atoms. -/
def LoweringState.Atomic (s : LoweringState) : Prop := ∀ b ∈ s.bound, b.2.IsAtomic

namespace LoweringState

variable {r s t : LoweringState}

theorem Leaves.refl (s : LoweringState) : Leaves s s :=
  ⟨rfl, [], (List.append_nil _).symm, List.forall_mem_nil _⟩

theorem Leaves.trans (h : Leaves r s) (h' : Leaves s t) : Leaves r t := by
  rcases h.pending with ⟨wires, hwires, hatoms⟩
  rcases h'.pending with ⟨wires', hwires', hatoms'⟩
  refine ⟨h'.bound.trans h.bound, wires ++ wires', ?_, List.forall_mem_append.mpr ⟨hatoms, hatoms'⟩⟩
  rw [hwires', hwires, List.append_assoc]

theorem Atomic.of_leaves (hs : s.Atomic) (h : Leaves s t) : t.Atomic := by
  rw [Atomic, h.bound]
  exact hs

end LoweringState

namespace Lowering

variable {α β : Type}

/-- A computation that prints atoms where bound names stand for atoms: it leaves them alone
    and atoms behind, however it ends, and if it returns, then what is wanted. -/
def Prints (m : Lowering α) (P : α → Prop) : Prop :=
  ∀ s, s.Atomic → s.Leaves (m.run.run s).2 ∧ ∀ a, (m.run.run s).1 = .ok a → P a

namespace Prints

variable {P : α → Prop} {Q : β → Prop} {m : Lowering α} {f : α → Lowering β}

theorem pure {a : α} (h : P a) : Prints (Pure.pure a) P := by
  intro s _
  refine ⟨.refl s, fun b hb => ?_⟩
  rcases Except.ok.inj hb with rfl
  exact h

/-- A computation without a state leaves the state alone. -/
theorem lift {x : Fallible α} (h : ∀ a, x = .ok a → P a) : Prints (liftM x : Lowering α) P :=
  fun s _ => ⟨.refl s, h⟩

/-- A computation that fails with no state leaves the state alone. -/
theorem refused {failure : Failure} : Prints (liftM (Except.error failure : Fallible α)) P :=
  .lift fun _ h => absurd h (by simp)

/-- If the first computation fails, the second one leaves nothing. -/
theorem bind (hm : Prints m P) (hf : ∀ a, P a → Prints (f a) Q) : Prints (m >>= f) Q := by
  intro s hs
  rcases hm s hs with ⟨hleaves, hresult⟩
  rw [run_bind]
  cases hrun : m.run.run s with
  | mk result t =>
      rw [hrun] at hleaves hresult
      cases result with
      | error e => exact ⟨hleaves, fun b hb => absurd hb (by simp)⟩
      | ok a =>
          rcases hf a (hresult a rfl) t (hs.of_leaves hleaves) with ⟨hleaves', hresult'⟩
          exact ⟨hleaves.trans hleaves', hresult'⟩

/-- The name bound last is forgotten again, also behind a failure. -/
theorem binding {name : String} {value : Rtl.Expr} (hvalue : value.IsAtomic) (hm : Prints m P) :
    Prints (Lowering.binding name value m) P := by
  intro s hs
  have hrun : (Lowering.binding name value m).run.run s
      = ((m.run.run (s.bind name value)).1, (m.run.run (s.bind name value)).2.unbind) := rfl
  have hinside : (s.bind name value).Atomic := List.forall_mem_cons.mpr ⟨hvalue, hs⟩
  rcases hm _ hinside with ⟨hleaves, hresult⟩
  rw [hrun]
  refine ⟨⟨?_, hleaves.pending⟩, hresult⟩
  rw [LoweringState.unbind, hleaves.bound]
  rfl

theorem castWire {width : Nat} {value : Rtl.Expr} (hvalue : value.IsAtomic) :
    Prints (Lowering.castWire width value) fun name => (Rtl.Expr.ref name).IsAtomic := by
  intro s _
  refine ⟨⟨rfl, [⟨_, width, value⟩], rfl, List.forall_mem_singleton.mpr hvalue⟩,
    fun name hname => ?_⟩
  rcases Except.ok.inj hname with rfl
  exact isAtomic_numbered (by decide) s.castCount

end Prints

end Lowering

namespace Scope

open Lowering

variable (s : Scope)

theorem isAtomic_read {t : ScalarType} {e : Rtl.Expr} (h : e.IsAtomic) : (t.read e).IsAtomic := by
  unfold ScalarType.read
  split
  · exact isAtomic_signed h.enclosable
  · exact h

/-- A variable is bound to an atom, or it is a name. -/
theorem prints_variableValue (type : ScalarType) (name : String) :
    Prints (s.variableValue type name) Rtl.Expr.IsAtomic := by
  intro r hr
  have hsignal := isAtomic_name name
  rw [variableValue, run_bind, run_get]
  dsimp only
  split
  · next value hvalue =>
    rcases Option.map_eq_some_iff.mp hvalue with ⟨b, hb, rfl⟩
    exact Prints.pure (hr b (List.mem_of_find?_eq_some hb)) r hr
  · refine Prints.pure ?_ r hr
    split
    · exact hsignal
    · exact isAtomic_read hsignal

theorem isEnclosable_computedPlace {coordinates : List (Rtl.Expr × Nat)}
    (h : ∀ c ∈ coordinates, c.1.IsEnclosable) : (computedPlace coordinates).IsEnclosable := by
  induction coordinates with
  | nil => exact isEnclosable_number 0
  | cons c rest ih =>
      rw [List.forall_mem_cons] at h
      cases rest with
      | nil => exact h.1
      | cons d more =>
          have hrest := ih h.2
          exact (isAtomic_binary _ h.1 (isAtomic_binary _ hrest
            (isEnclosable_number c.2)).enclosable).enclosable

/-- A location can be read as an atom if what stands in its brackets is balanced. -/
theorem prints_locate {name : String} {args : List Expr} {coordinates : Lowering (List Rtl.Expr)}
    (h : Prints coordinates fun cs => ∀ c ∈ cs, c.IsEnclosable) :
    Prints (s.locate name args coordinates) fun l => l.signal = printName name ∧
      ∀ flat, l.place = .computed flat → flat.IsEnclosable := by
  unfold locate
  simp only []
  split
  · exact .refused
  split
  · exact .refused
  split
  · refine .bind (.lift fun _ _ => trivial) fun _ (_ : True) => .bind (.lift fun _ _ => trivial)
      fun _ (_ : True) => .pure ⟨rfl, fun _ hplace => absurd hplace (by simp)⟩
  · refine h.bind fun cs hcs => .pure ⟨rfl, fun flat hplace => ?_⟩
    rw [← Place.computed.inj hplace]
    exact isEnclosable_computedPlace fun c hc => hcs _ (List.of_mem_zip hc).1

theorem isAtomic_element {l : Location} {e : Rtl.Expr} (h : l.element = .ok e) {name : String}
    (hsignal : l.signal = printName name)
    (hplace : ∀ flat, l.place = .computed flat → flat.IsEnclosable) : e.IsAtomic := by
  have hname := isAtomic_name name
  rw [← hsignal] at hname
  rcases element_cases h with ⟨flat, low, _, _, rfl⟩ | ⟨flat, hflat, rfl⟩
  · exact isAtomic_part _ _ hname
  · exact isAtomic_field _ hname (hplace flat hflat)

section Operators

variable {a b : Rtl.Expr}

theorem isAtomic_apply (op : BinaryOp) (ha : a.IsAtomic) (hb : b.IsAtomic) :
    (op.apply a b).IsAtomic := by
  have hboth : ∀ operator, (Rtl.Expr.binary operator a b).IsAtomic := fun operator =>
    isAtomic_binary operator ha.enclosable hb.enclosable
  cases op with
  | min => exact isAtomic_mux (hboth _).enclosable ha.enclosable hb.enclosable
  | max => exact isAtomic_mux (hboth _).enclosable ha.enclosable hb.enclosable
  | _ => exact hboth _

theorem isAtomic_unary (op : UnaryIntrinsic) (signed : Bool) (ha : a.IsAtomic) :
    (op.apply signed a).IsAtomic := by
  cases op with
  | abs =>
      have hsign := isAtomic_binary .lt ha.enclosable (isEnclosable_number 0)
      exact isAtomic_mux hsign.enclosable (isAtomic_negate ha.enclosable).enclosable ha.enclosable
  | bitNot => exact isAtomic_not ha.enclosable
  | reinterpret =>
      cases signed with
      | true => exact isAtomic_signed ha.enclosable
      | false => exact isAtomic_unsigned ha.enclosable

theorem isAtomic_pair (op : BinaryIntrinsic) (signed : Bool) (ha : a.IsAtomic)
    (hb : b.IsAtomic) : (op.apply signed a b).IsAtomic := by
  have hboth : ∀ operator, (Rtl.Expr.binary operator a b).IsAtomic := fun operator =>
    isAtomic_binary operator ha.enclosable hb.enclosable
  cases op with
  | difference =>
      have hflipped := isAtomic_binary .sub hb.enclosable ha.enclosable
      exact isAtomic_mux (hboth _).enclosable hflipped.enclosable (hboth _).enclosable
  | _ => exact hboth _

end Operators

mutual

/-- An expression is printed as an atom. -/
theorem prints_lower : ∀ e : Expr, Prints (s.lower e) Rtl.Expr.IsAtomic
  | .intImm type value => by
      refine .pure ?_
      unfold ScalarType.intLiteral
      split
      · exact isAtomic_signedLiteral ..
      · exact isAtomic_literal ..
  | .uintImm type value => .pure (isAtomic_literal ..)
  | .floatImm _ _ => .refused
  | .textImm _ => .refused
  | .load _ _ _ => .refused
  | .var type name => s.prints_variableValue type name
  | .cast type value => by
      unfold lower
      split
      · exact .bind (P := fun _ => False) .refused fun _ h => h.elim
      · exact (prints_lower value).bind fun _ hvalue => (Prints.castWire hvalue).bind
          fun _ hname => .pure (isAtomic_read hname)
  | .binary op a b =>
      (prints_lower a).bind fun _ ha => (prints_lower b).bind fun _ hb =>
        .pure (isAtomic_apply op ha hb)
  | .not a => (prints_lower a).bind fun _ ha => .pure (isAtomic_isZero ha.enclosable)
  | .select condition ifTrue ifFalse =>
      (prints_lower condition).bind fun _ hc => (prints_lower ifTrue).bind fun _ ht =>
        (prints_lower ifFalse).bind fun _ hf =>
          .pure (isAtomic_mux hc.enclosable ht.enclosable hf.enclosable)
  | .letIn name value body =>
      (prints_lower value).bind fun _ hvalue => .binding hvalue (prints_lower body)
  | .call type name args callType => by
      unfold lower
      split
      · refine (prints_locate s (prints_coordinates args)).bind fun l hl => ?_
        exact .bind (.lift fun e he => isAtomic_element he hl.1 hl.2) fun e he =>
          .pure (isAtomic_read he)
      split
      · split <;> exact .refused
      split
      · exact .refused
      refine (prints_lowerAll args).bind fun xs hxs => ?_
      split
      · exact .pure (isAtomic_unary _ _ (hxs _ (List.mem_cons_self ..)))
      · exact .pure (isAtomic_pair _ _ (hxs _ (List.mem_cons_self ..))
          (hxs _ (List.mem_cons_of_mem _ (List.mem_cons_self ..))))
      · exact .refused

/-- So are operands, -/
theorem prints_lowerAll : ∀ es : List Expr,
    Prints (s.lowerAll es) fun xs => ∀ x ∈ xs, x.IsAtomic
  | [] => .pure (List.forall_mem_nil _)
  | e :: rest => (prints_lower e).bind fun _ hx => (prints_lowerAll rest).bind fun _ hmore =>
      .pure (List.forall_mem_cons.mpr ⟨hx, hmore⟩)

/-- and coordinates that are not constants. -/
theorem prints_coordinates : ∀ es : List Expr,
    Prints (s.coordinates es) fun xs => ∀ x ∈ xs, x.IsEnclosable
  | [] => .pure (List.forall_mem_nil _)
  | e :: rest => by
      have hmore : ∀ x : Rtl.Expr, x.IsEnclosable →
          Prints (do return x :: (← s.coordinates rest)) fun xs => ∀ y ∈ xs, y.IsEnclosable :=
        fun x hx => (prints_coordinates rest).bind fun _ hmore =>
          .pure (List.forall_mem_cons.mpr ⟨hx, hmore⟩)
      unfold coordinates
      split
      · exact hmore _ (isEnclosable_number _)
      · exact (prints_lower e).bind fun x hx => hmore x hx.enclosable

end

/-- The text of an expression is an atom if the names bound around it stand for atoms. The
    wires left behind have atoms for values, and no name bound inside is left behind, also by a
    lowering that fails. -/
theorem lower_isAtom (e : Expr) {r : LoweringState} (h : ∀ b ∈ r.bound, IsAtom b.2.text.toList) :
    (∀ x, ((s.lower e).run.run r).1 = .ok x → IsAtom x.text.toList) ∧
      (∃ wires, ((s.lower e).run.run r).2.pending = r.pending ++ wires ∧
        ∀ c ∈ wires, IsAtom c.value.text.toList) ∧
      ((s.lower e).run.run r).2.bound = r.bound := by
  rcases s.prints_lower e r h with ⟨hleaves, hresult⟩
  exact ⟨hresult, hleaves.pending, hleaves.bound⟩

/-- A window of three by three words, read below `x`. -/
def windowScope : Scope := ⟨[("in_stencil", ⟨.stencil, .uint 16, [3, 3], [3, 3], 1⟩)], ["x"]⟩

/-- A name that stands for a sum, with four conversions before. -/
def sumBound : LoweringState := ⟨[("a", .binary .add (.ref "b") (.literal 16 1))], [], 4⟩

/-- A part of `a` and an element in the row before the first one. -/
def narrowedSum : Expr :=
  .letIn "t" (.cast (.uint 8) (.var (.uint 16) "a")) (.binary .add (.var (.uint 8) "t")
    (.call (.int 16) "in.stencil" [.var (.int 32) "x", .intImm (.int 32) (-1)] .access))

theorem lower_isAtom_narrowedSum :
    (∀ b ∈ sumBound.bound, IsAtom b.2.text.toList) ∧
      (∃ x, ((windowScope.lower narrowedSum).run.run sumBound).1 = .ok x ∧
        x.text = "(cast_4 + $signed(in_stencil[(x + (-1 * 3)) * 16 +: 16]))" ∧
        IsAtom x.text.toList) ∧
      (((windowScope.lower narrowedSum).run.run sumBound).2.pending.map
        fun c => (c.name, c.value.text)) = [("cast_4", "(b + 16'd1)")] ∧
      ((windowScope.lower narrowedSum).run.run sumBound).2.bound = sumBound.bound := by
  have hbound : ∀ b ∈ sumBound.bound, IsAtom b.2.text.toList := by decide
  have htext : ((windowScope.lower narrowedSum).run.run sumBound).1.map Rtl.Expr.text
      = .ok "(cast_4 + $signed(in_stencil[(x + (-1 * 3)) * 16 +: 16]))" := by decide +kernel
  rcases windowScope.lower_isAtom narrowedSum hbound with ⟨hresult, _, hsame⟩
  rcases Fallible.exists_of_map htext with ⟨x, hx, hprinted⟩
  exact ⟨hbound, ⟨x, hx, hprinted, hresult x hx⟩, by decide +kernel, hsame⟩

end Scope

end StencilRtl
