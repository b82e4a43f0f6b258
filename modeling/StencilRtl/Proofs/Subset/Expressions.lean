import StencilRtl.Proofs.Sharing.Clashes

/-!
# Expressions that Become Hardware

Which expressions a design was built from, if it could be built.

An expression is lowered node by node, and nodes of some kinds are refused: constants that
are no integers, loads, conversions from or to floating point, and calls of anything but
a stencil and a built-in operation. The lowering reaches every node below, also that of a
value nobody uses. Only coordinates are looked at beforehand, whether they are all
constants, and then they are not lowered, but a constant is a node that is let through.

So of a stage whose datapath was built all expressions are plain: those it stores or binds,
the coordinates of its stores, and the guard of its write. A design that is printed has
built the datapaths of all of its stages.

## Main definitions

* `Expr.IsPlain`: No node of an expression is refused.
* `StagePlan.IsPlain`: The expressions of a stage are plain.

## Theorems

* `Scope.isPlain_of_lower`: An expression that was lowered is plain.
* `Netlist.isPlain_of_makeTop`: The stages of a design that was built are plain.
-/

namespace StencilRtl

namespace Expr

/-- Whether a node is not of a kind that is refused. -/
def isPlainNode : Expr → Bool
  | .floatImm _ _ => false
  | .textImm _ => false
  | .load _ _ _ => false
  | .cast type value => !type.isFloat && !value.type.isFloat
  | .call _ name _ callType =>
      callType = .access || isStencilName name || (Intrinsic.ofName? name).isSome
  | _ => true

/-- No node of an expression is refused. -/
def IsPlain (e : Expr) : Prop := ∀ n ∈ e.nodes, n.isPlainNode = true

instance (e : Expr) : Decidable e.IsPlain :=
  inferInstanceAs (Decidable (∀ n ∈ e.nodes, n.isPlainNode = true))

end Expr

/-- The expressions of an action. -/
def Action.exprs : Action → List Expr
  | .letIn _ value => [value]
  | .provide _ args value => value :: args

/-- The expressions of a stage are plain. -/
structure StagePlan.IsPlain (p : StagePlan) : Prop where
  actions : ∀ a ∈ p.actions, ∀ e ∈ a.exprs, e.IsPlain
  guard : ∀ g, p.writeGuard = some g → g.IsPlain

namespace Expr

theorem forall_nodesOfList {p : Expr → Prop} (es : List Expr) :
    (∀ n ∈ nodesOfList es, p n) ↔ ∀ e ∈ es, ∀ n ∈ e.nodes, p n := by
  induction es with
  | nil => simp [nodesOfList]
  | cons e rest ih => rw [nodesOfList, List.forall_mem_append, ih, List.forall_mem_cons]

theorem isPlain_of_constant {e : Expr} (h : e.constant?.isSome = true) : e.IsPlain := by
  cases e <;> first | exact List.forall_mem_singleton.mpr rfl | exact absurd h (by simp [constant?])

theorem isPlain_of_var {e : Expr} (h : e.var?.isSome = true) : e.IsPlain := by
  cases e <;> first | exact List.forall_mem_singleton.mpr rfl | exact absurd h (by simp [var?])

/-- Coordinates that are all constants are plain. -/
theorem isPlain_of_constants {es : List Expr} {index : List Int}
    (h : es.mapM constant? = some index) : ∀ e ∈ es, e.IsPlain := by
  induction es generalizing index with
  | nil => exact List.forall_mem_nil _
  | cons e rest ih =>
      rw [List.mapM_cons] at h
      rcases Option.bind_eq_some_iff.mp h with ⟨i, hi, h⟩
      rcases Option.bind_eq_some_iff.mp h with ⟨more, hmore, _⟩
      exact List.forall_mem_cons.mpr ⟨isPlain_of_constant (Option.isSome_of_eq_some hi), ih hmore⟩

variable {e a b c : Expr} {args : List Expr}

theorem isPlain_cast {type : ScalarType} (h : (cast type a).isPlainNode = true)
    (ha : a.IsPlain) : (cast type a).IsPlain :=
  List.forall_mem_cons.mpr ⟨h, ha⟩

theorem isPlain_binary {op : BinaryOp} :
    (binary op a b).IsPlain ↔ a.IsPlain ∧ b.IsPlain := by
  rw [IsPlain, nodes, List.forall_mem_cons, List.forall_mem_append]
  exact and_iff_right rfl

theorem isPlain_call {type : ScalarType} {name : String} {callType : CallType}
    (h : (call type name args callType).isPlainNode = true) (hargs : ∀ e ∈ args, e.IsPlain) :
    (call type name args callType).IsPlain :=
  List.forall_mem_cons.mpr ⟨h, (forall_nodesOfList args).mpr hargs⟩

end Expr

namespace Scope

variable {s : Scope}

/-- A location has coordinates that are constants or were lowered. -/
theorem isPlain_of_locate {name : String} {args : List Expr}
    {coordinates : Lowering (List Rtl.Expr)} {r t : LoweringState} {l : Location}
    (hcoordinates : ∀ cs t', Returns coordinates r cs t' → ∀ e ∈ args, e.IsPlain)
    (h : Returns (s.locate name args coordinates) r l t) : ∀ e ∈ args, e.IsPlain := by
  unfold locate at h
  simp only [] at h
  split at h
  · exact absurd (returns_lift.mp h).1 (by simp [undefinedName])
  split at h
  · exact absurd (returns_lift.mp h).1 (by simp [unsupported])
  split at h
  · next index hindex => exact Expr.isPlain_of_constants hindex
  · rcases returns_bind.mp h with ⟨cs, r₁, hcs, _⟩
    exact hcoordinates cs r₁ hcs

mutual

/-- An expression that was lowered is plain. -/
theorem isPlain_of_lower : ∀ (e : Expr) (r t : LoweringState) (x : Rtl.Expr),
    Returns (s.lower e) r x t → e.IsPlain
  | .intImm _ _, _, _, _, _ => List.forall_mem_singleton.mpr rfl
  | .uintImm _ _, _, _, _, _ => List.forall_mem_singleton.mpr rfl
  | .var _ _, _, _, _, _ => List.forall_mem_singleton.mpr rfl
  | .floatImm _ _, _, _, _, h => absurd (returns_lift.mp h).1 (by simp [unsupported])
  | .textImm _, _, _, _, h => absurd (returns_lift.mp h).1 (by simp [unsupported])
  | .load _ _ _, _, _, _, h => absurd (returns_lift.mp h).1 (by simp [unsupported])
  | .cast type value, r, t, x, h => by
      unfold lower at h
      split at h
      · rcases returns_bind.mp h with ⟨_, _, hrefused, _⟩
        exact absurd (returns_lift.mp hrefused).1 (by simp [unsupported])
      · next hfloat =>
        rcases returns_bind.mp h with ⟨inner, r₁, hinner, _⟩
        exact Expr.isPlain_cast (by simpa [Expr.isPlainNode] using hfloat)
          (isPlain_of_lower value r r₁ inner hinner)
  | .binary op a b, r, t, x, h => by
      rcases returns_bind.mp h with ⟨a', r₁, ha, h₁⟩
      rcases returns_bind.mp h₁ with ⟨b', r₂, hb, _⟩
      exact Expr.isPlain_binary.mpr ⟨isPlain_of_lower a r r₁ a' ha, isPlain_of_lower b r₁ r₂ b' hb⟩
  | .not a, r, t, x, h => by
      rcases returns_bind.mp h with ⟨a', r₁, ha, _⟩
      exact List.forall_mem_cons.mpr ⟨rfl, isPlain_of_lower a r r₁ a' ha⟩
  | .select condition ifTrue ifFalse, r, t, x, h => by
      rcases returns_bind.mp h with ⟨c', r₁, hc, h₁⟩
      rcases returns_bind.mp h₁ with ⟨t', r₂, ht, h₂⟩
      rcases returns_bind.mp h₂ with ⟨f', r₃, hf, _⟩
      exact List.forall_mem_cons.mpr ⟨rfl, List.forall_mem_append.mpr
        ⟨List.forall_mem_append.mpr ⟨isPlain_of_lower condition r r₁ c' hc,
          isPlain_of_lower ifTrue r₁ r₂ t' ht⟩, isPlain_of_lower ifFalse r₂ r₃ f' hf⟩⟩
  | .letIn name value body, r, t, x, h => by
      rcases returns_bind.mp h with ⟨v', r₁, hv, h₁⟩
      rcases Lowering.returns_binding.mp h₁ with ⟨r₂, hb, _⟩
      exact List.forall_mem_cons.mpr ⟨rfl, List.forall_mem_append.mpr
        ⟨isPlain_of_lower value r r₁ v' hv, isPlain_of_lower body _ r₂ x hb⟩⟩
  | .call type name args callType, r, t, x, h => by
      unfold lower at h
      split at h
      · next haccess =>
        rcases returns_bind.mp h with ⟨l, r₁, hl, _⟩
        refine Expr.isPlain_call (by simp [Expr.isPlainNode, haccess]) ?_
        exact isPlain_of_locate (fun cs t' => isPlain_of_coordinates args r t' cs) hl
      · split at h
        · split at h
          · exact absurd (returns_lift.mp h).1 (by simp [unsupported])
          · exact absurd (returns_lift.mp h).1 (by simp [unsupported])
        next intrinsic hname =>
        split at h
        · exact absurd (returns_lift.mp h).1 (by simp [unsupported])
        rcases returns_bind.mp h with ⟨xs, r₁, hxs, _⟩
        exact Expr.isPlain_call (by simp [Expr.isPlainNode, hname])
          (isPlain_of_lowerAll args r r₁ xs hxs)

theorem isPlain_of_lowerAll : ∀ (es : List Expr) (r t : LoweringState) (xs : List Rtl.Expr),
    Returns (s.lowerAll es) r xs t → ∀ e ∈ es, e.IsPlain
  | [], _, _, _, _ => List.forall_mem_nil _
  | e :: rest, r, t, xs, h => by
      rcases returns_bind.mp h with ⟨x, r₁, hx, h₁⟩
      rcases returns_bind.mp h₁ with ⟨more, r₂, hmore, _⟩
      exact List.forall_mem_cons.mpr
        ⟨isPlain_of_lower e r r₁ x hx, isPlain_of_lowerAll rest r₁ r₂ more hmore⟩

theorem isPlain_of_coordinates : ∀ (es : List Expr) (r t : LoweringState) (xs : List Rtl.Expr),
    Returns (s.coordinates es) r xs t → ∀ e ∈ es, e.IsPlain
  | [], _, _, _, _ => List.forall_mem_nil _
  | e :: rest, r, t, xs, h => by
      unfold coordinates at h
      cases hconstant : e.constant? with
      | some c =>
          rw [hconstant] at h
          rcases returns_bind.mp h with ⟨x, r₁, _, h₁⟩
          rcases returns_bind.mp h₁ with ⟨more, r₂, hmore, _⟩
          exact List.forall_mem_cons.mpr
            ⟨Expr.isPlain_of_constant (Option.isSome_of_eq_some hconstant),
              isPlain_of_coordinates rest r₁ r₂ more hmore⟩
      | none =>
          rw [hconstant] at h
          rcases returns_bind.mp h with ⟨x, r₁, hx, h₁⟩
          rcases returns_bind.mp h₁ with ⟨more, r₂, hmore, _⟩
          exact List.forall_mem_cons.mpr
            ⟨isPlain_of_lower e r r₁ x hx, isPlain_of_coordinates rest r₁ r₂ more hmore⟩

end

end Scope

namespace StagePlan

variable {p : StagePlan}

/-- The expressions of actions that have been lowered are plain. -/
theorem Lowers.isPlain {indexWidth k : Nat} {actions : List Action} {r t : LoweringState}
    {items : List Rtl.Item} {stored : List StoredElement}
    (h : p.Lowers indexWidth k actions r items stored t) :
    ∀ a ∈ actions, ∀ e ∈ a.exprs, e.IsPlain := by
  have hstore : ∀ {stencil args value r r₁ r₂ x l}, Returns (p.scope.lower value) r x r₁ →
      Returns (p.scope.locate stencil args (p.scope.coordinates args)) r₁ l r₂ →
      ∀ e ∈ (Action.provide stencil args value).exprs, e.IsPlain := by
    intro stencil args value r r₁ r₂ x l hx hl
    exact List.forall_mem_cons.mpr ⟨p.scope.isPlain_of_lower value r r₁ x hx,
      Scope.isPlain_of_locate (fun cs t' => p.scope.isPlain_of_coordinates args r₁ t' cs) hl⟩
  induction h with
  | nil => exact List.forall_mem_nil _
  | @letIn k name value rest r r₁ r₂ t x casts wire items stored hx _ _ _ ih =>
      exact List.forall_mem_cons.mpr
        ⟨List.forall_mem_singleton.mpr (p.scope.isPlain_of_lower value r r₁ x hx), ih⟩
  | output _ hx hl _ _ ih => exact List.forall_mem_cons.mpr ⟨hstore hx hl, ih⟩
  | kept _ _ hx hl _ _ _ ih => exact List.forall_mem_cons.mpr ⟨hstore hx hl, ih⟩

/-- A stage with a datapath is plain. -/
theorem isPlain_of_datapathBody {t : LoweringState} {items : List Rtl.Item}
    (h : Returns p.datapathBody .initial items t) : p.IsPlain := by
  rcases datapathBody_parts h with
    ⟨_, _, _, _, _, commit, _, r, s, _, _, hlowers, _, hcommit, _, _⟩
  refine ⟨hlowers.isPlain, fun g hg => ?_⟩
  rw [commitValue, hg] at hcommit
  exact p.scope.isPlain_of_lower g r s commit hcommit

end StagePlan

namespace Netlist

variable {n : Netlist} {w : Workshop}

/-- The stages of a design that was built are plain. -/
theorem isPlain_of_makeTop {top : Rtl.Module} (hn : n.Uniform)
    (h : Returns n.makeTop .empty top w) : ∀ plan ∈ n.stagePlans, plan.IsPlain := by
  intro p hp
  rcases mem_stagePlans.mp hp with ⟨c, hc, hstage⟩
  rcases hasStage_of_makeTop hn h hc hstage with ⟨_, hhas⟩
  rcases hhas.inside (grown_of_makeTop hn h).1 hn ⟨hc, hstage⟩ with ⟨_, _, _, hdatapath⟩
  rcases hdatapath with ⟨l, d, _, hmade, _⟩
  rcases hmade.build [] with ⟨ws, hbuild⟩
  rcases returns_lift_bind.mp hbuild with ⟨ports, _, hbuild⟩
  rcases returns_lift_bind.mp hbuild with ⟨body, hbody, _⟩
  exact StagePlan.isPlain_of_datapathBody (returns_of_run hbody)

end Netlist

end StencilRtl
