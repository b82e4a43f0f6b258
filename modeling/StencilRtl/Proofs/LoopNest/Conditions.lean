import Mathlib.Algebra.Order.BigOperators.Group.List
import Mathlib.Algebra.Order.Ring.Nat
import Mathlib.Data.List.Flatten
import StencilRtl.Proofs.LoopNest.Guards

/-!
# Nests that Respect their Conditions

When a stage heeds all of the conditions its nest has.

A nest asks for two things. It writes only where the conditions around its write hold,
and it stores only where the conditions around each store hold. A stage has one guard,
which is about the write, and carries out its stores at every position.

So the first is granted just if none of the conditionals around the write contains a
read: the guard is the conjunction of the conditions that are kept, and a conjunction of
fewer conditions is a smaller expression. The second is granted just if the conditions
around each store hold at every position anyway.

## Main definitions

* `Stmt.storesAt`: The stores of a nest at a position, conditions respected.
* `StagePlan.stores`: The stores of a stage.

## Theorems

* `conjunction_eq_iff`: The conjunction of some of the conditions is the one of all of
  them only if it is of all of them.
* `flatMap_stores_steps`: Every store is a step.
* `guard_and_stores_iff`: When a stage heeds the conditions of its nest.
-/

namespace StencilRtl

namespace LoopNest

/-- How large the conjunction of some conditions is. -/
def weight (es : List Expr) : Nat := (es.map fun e => e.nodes.length + 1).sum

theorem length_nodes_foldl (rest : List Expr) (first : Expr) :
    (rest.foldl (fun a b => .binary .and a b) first).nodes.length
      = first.nodes.length + weight rest := by
  induction rest generalizing first with
  | nil => rfl
  | cons e rest ih =>
      rw [List.foldl_cons, ih]
      simp only [Expr.nodes, weight, List.length_cons, List.length_append, List.map_cons,
        List.sum_cons]
      omega

/-- A conjunction is as large as its conditions make it. -/
theorem weight_eq_of_conjunction_eq {es fs : List Expr} (h : conjunction es = conjunction fs) :
    weight es = weight fs := by
  cases es with
  | nil =>
      cases fs with
      | nil => rfl
      | cons f fs => exact absurd h (by simp [conjunction])
  | cons e es =>
      cases fs with
      | nil => exact absurd h (by simp [conjunction])
      | cons f fs =>
          have hnodes := congrArg (fun e => e.nodes.length) (Option.some.inj h)
          simp only [length_nodes_foldl] at hnodes
          simp only [weight, List.map_cons, List.sum_cons] at hnodes ⊢
          omega

/-- The conjunction of some of the conditions is the one of all of them only if it is of
    all of them. -/
theorem conjunction_eq_iff {es fs : List Expr} (h : es.Sublist fs) :
    conjunction es = conjunction fs ↔ es = fs := by
  refine ⟨fun heq => ?_, fun heq => by rw [heq]⟩
  have hweight := weight_eq_of_conjunction_eq heq
  clear heq
  induction h with
  | slnil => rfl
  | @cons es fs f hsub _ =>
      have hle : weight es ≤ weight fs := (hsub.map _).sum_le_sum fun _ _ => Nat.zero_le _
      simp only [weight, List.map_cons, List.sum_cons] at hweight hle
      omega
  | @cons_cons es fs e _ ih =>
      simp only [weight, List.map_cons, List.sum_cons] at hweight ih
      rw [ih (by omega)]

end LoopNest

/-- The guard of a write has all conditions around it just if none of the conditionals
    contains a read. -/
theorem Step.conjunction_guards_iff (s : Step) :
    LoopNest.conjunction s.guards = LoopNest.conjunction s.conditions ↔
      ∀ c ∈ s.around, c.body.containsReadStream = false := by
  have hsub : s.guards.Sublist s.conditions := List.filter_sublist.map _
  rw [LoopNest.conjunction_eq_iff hsub, guards, conditions]
  constructor
  · intro heq c hc
    have hlength := congrArg List.length heq
    rw [List.length_map, List.length_map, List.length_filter_eq_length_iff] at hlength
    simpa using hlength c hc
  · intro hall
    rw [List.filter_eq_self.mpr fun c hc => by simp [hall c hc]]

/-- Whether an action stores a value. -/
def Action.isStore : Action → Bool
  | .provide _ _ _ => true
  | .letIn _ _ => false

/-- The stores of a step. -/
def Step.stores (s : Step) : List Action :=
  match s.stmt with
  | .provide name values args => values.map fun value => .provide (printName name) args value
  | _ => []

/-- Whether all conditions around a step hold. -/
def Step.Holds (ev : Valuation) (env : LoopEnv) (s : Step) : Prop :=
  ∀ condition ∈ s.conditions, ev.value env condition ≠ 0

instance (ev : Valuation) (env : LoopEnv) (s : Step) : Decidable (s.Holds ev env) :=
  inferInstanceAs (Decidable (∀ condition ∈ s.conditions, ev.value env condition ≠ 0))

namespace Stmt

/-- The stores of a statement at a position, those of a step only where the conditions
    around it hold. -/
def storesAt (ev : Valuation) (s : Stmt) (env : LoopEnv) : List Execution :=
  s.steps.flatMap fun step =>
    if step.Holds ev env then step.stores.map fun action => ⟨action, env⟩ else []

theorem flatMap_stores_under (c : Conditional) (steps : List Step) :
    (steps.map (Step.under c)).flatMap Step.stores = steps.flatMap Step.stores := by
  rw [List.flatMap_map]
  rfl

mutual

/-- Every store is a step, in the same order. -/
theorem flatMap_stores_steps : ∀ s : Stmt,
    s.steps.flatMap Step.stores = s.actions.filter Action.isStore
  | .letIn _ _ body => by
      have hbody := flatMap_stores_steps body
      simp only [actions] at hbody
      simp [steps, actions, nodes, Node.actions, exprNodes, Action.isStore, hbody]
  | .producer _ _ body => by
      have hbody := flatMap_stores_steps body
      simp only [actions] at hbody
      simp [steps, actions, nodes, Node.actions, hbody]
  | .loop _ _ _ _ body => by
      have hbody := flatMap_stores_steps body
      simp only [actions] at hbody
      simp [steps, actions, nodes, Node.actions, exprNodes, hbody]
  | .realize _ _ _ body => by
      have hbody := flatMap_stores_steps body
      simp only [actions] at hbody
      simp [steps, actions, nodes, Node.actions, hbody]
  | .allocate _ _ _ body => by
      have hbody := flatMap_stores_steps body
      simp only [actions] at hbody
      simp [steps, actions, nodes, Node.actions, exprsNodes, hbody]
  | .block stmts => by
      have hstmts := flatMap_stores_stepsOfList stmts
      simp [steps, actions, nodes, Node.actions, hstmts]
  | .branch condition thenCase elseCase => by
      have hthen := flatMap_stores_steps thenCase
      have helse := flatMap_stores_stepsOfOption (.not condition) elseCase
      simp only [actions] at hthen
      simp [steps, actions, nodes, Node.actions, exprNodes, flatMap_stores_under, hthen, helse]
  | .provide name values args => by
      have hall : ∀ a ∈ values.map fun value => Action.provide (printName name) args value,
          a.isStore = true := by
        intro a ha
        rcases List.mem_map.mp ha with ⟨_, _, rfl⟩
        rfl
      simp [steps, actions, nodes, Node.actions, exprsNodes, Step.stores,
        List.filter_eq_self.mpr hall]
  | .evaluate _ => by simp [steps, actions, nodes, Node.actions, exprNodes, Step.stores]
  | .assert _ _ => by simp [steps, actions, nodes, Node.actions, exprNodes]
  | .store _ _ _ => by simp [steps, actions, nodes, Node.actions, exprNodes]
  | .free _ => by simp [steps, actions, nodes, Node.actions]

theorem flatMap_stores_stepsOfList : ∀ ss : List Stmt,
    (stepsOfList ss).flatMap Step.stores
      = ((nodesOfList ss).flatMap Node.actions).filter Action.isStore
  | [] => rfl
  | s :: rest => by
      have hs := flatMap_stores_steps s
      have hrest := flatMap_stores_stepsOfList rest
      simp only [actions] at hs
      simp only [stepsOfList, nodesOfList, List.flatMap_append, List.filter_append, hs, hrest]

theorem flatMap_stores_stepsOfOption (condition : Expr) : ∀ s : Option Stmt,
    (stepsOfOption condition s).flatMap Step.stores
      = ((nodesOfOption s).flatMap Node.actions).filter Action.isStore
  | none => rfl
  | some s => by
      rw [stepsOfOption, flatMap_stores_under, flatMap_stores_steps s]
      rfl

end

end Stmt

namespace StagePlan

/-- The values of the loop variables at the positions of a stage, in order. -/
def environments (p : StagePlan) : List LoopEnv :=
  (LoopVar.positions p.vars).map fun position =>
    (p.vars.map LoopVar.name).zip (position.map Int.ofNat)

/-- The stores of a stage, in order. -/
def stores (p : StagePlan) : List Execution := p.executions.filter fun x => x.action.isStore

/-- A stage carries out its stores at every position. -/
theorem stores_eq (p : StagePlan) :
    p.stores = p.environments.flatMap fun env =>
      (p.actions.filter Action.isStore).map fun action => ⟨action, env⟩ := by
  rw [stores, executions, walk, environments, List.filter_flatMap, List.flatMap_map]
  refine List.flatMap_congr fun position _ => ?_
  rw [List.filter_map]
  rfl

end StagePlan

/-- Lists put together from parts of others are the same only if the parts are all of
    them. -/
theorem flatMap_eq_iff_of_sublist {α β : Type} {l : List α} {f g : α → List β}
    (hsub : ∀ a ∈ l, (g a).Sublist (f a)) :
    l.flatMap f = l.flatMap g ↔ ∀ a ∈ l, f a = g a := by
  refine ⟨fun heq => ?_, fun hall => List.flatMap_congr hall⟩
  induction l with
  | nil => exact List.forall_mem_nil _
  | cons a l ih =>
      have hrest : (l.flatMap g).length ≤ (l.flatMap f).length := by
        rw [List.length_flatMap, List.length_flatMap]
        exact List.sum_le_sum fun b hb => (hsub b (List.mem_cons_of_mem _ hb)).length_le
      have hfirst := (hsub a List.mem_cons_self).length_le
      rw [List.flatMap_cons, List.flatMap_cons] at heq
      have hlength := congrArg List.length heq
      rw [List.length_append, List.length_append] at hlength
      rcases List.append_inj heq (by omega) with ⟨ha, hl⟩
      exact List.forall_mem_cons.mpr
        ⟨ha, ih (fun b hb => hsub b (List.mem_cons_of_mem _ hb)) hl⟩

theorem forall₂_and {α β : Type} {R S : α → β → Prop} {l : List α} {m : List β}
    (h : List.Forall₂ R l m) (h' : List.Forall₂ S l m) :
    List.Forall₂ (fun a b => R a b ∧ S a b) l m := by
  induction h with
  | nil => exact .nil
  | cons hab _ ih =>
      cases h' with
      | cons hab' hrest => exact .cons ⟨hab, hab'⟩ (ih hrest)

/-- A stage stores where its nest does just if the conditions around each store hold at
    every position. -/
theorem stores_eq_iff (ev : Valuation) {nest : Stmt} {plan : StagePlan}
    (hactions : plan.actions = nest.actions) :
    plan.stores = plan.environments.flatMap (nest.storesAt ev) ↔
      ∀ env ∈ plan.environments, ∀ step ∈ nest.steps, step.stores ≠ [] → step.Holds ev env := by
  have hall : ∀ env : LoopEnv,
      ((nest.actions.filter Action.isStore).map fun action => (⟨action, env⟩ : Execution))
        = nest.steps.flatMap fun step => step.stores.map fun action => ⟨action, env⟩ := by
    intro env
    rw [← Stmt.flatMap_stores_steps, List.map_flatMap]
  -- At each position, and there for each step, the stage stores at least as much.
  have hstep : ∀ env : LoopEnv, ∀ step ∈ nest.steps,
      (if step.Holds ev env then step.stores.map fun action => (⟨action, env⟩ : Execution)
        else []).Sublist (step.stores.map fun action => ⟨action, env⟩) := by
    intro env step _
    split
    · exact List.Sublist.refl _
    · exact List.nil_sublist _
  have hsub : ∀ env ∈ plan.environments, (nest.storesAt ev env).Sublist
      (nest.steps.flatMap fun step => step.stores.map fun action => ⟨action, env⟩) :=
    fun env _ => List.Sublist.flatMap_right _ (hstep env)
  rw [StagePlan.stores_eq, hactions]
  simp only [hall]
  rw [flatMap_eq_iff_of_sublist hsub]
  refine forall₂_congr fun env _ => ?_
  rw [Stmt.storesAt, flatMap_eq_iff_of_sublist (hstep env)]
  refine forall₂_congr fun step _ => ?_
  constructor
  · intro heq hne
    by_contra hholds
    rw [if_neg hholds] at heq
    exact hne (List.map_eq_nil_iff.mp heq)
  · intro himp
    by_cases hnil : step.stores = []
    · rw [hnil, List.map_nil, ite_self]
    · rw [if_pos (himp hnil)]

/-- A stage has one write, guarded by the conditions around it of the conditionals that
    contain no read. These are all conditions around the write just if none of the
    conditionals contains one. The stores are those of the nest just if the conditions
    around each of them hold at every position. -/
theorem guard_and_stores_iff (ev : Valuation) (k : Kernel) (n : Netlist)
    (h : Netlist.ofKernel k = .ok n) :
    List.Forall₂ (fun nest plan =>
        (∃ write, nest.writeSteps = [write] ∧
          plan.writeGuard = LoopNest.conjunction write.guards ∧
          (plan.writeGuard = LoopNest.conjunction write.conditions ↔
            ∀ c ∈ write.around, c.body.containsReadStream = false)) ∧
        (plan.stores = plan.environments.flatMap (nest.storesAt ev) ↔
          ∀ env ∈ plan.environments, ∀ step ∈ nest.steps,
            step.stores ≠ [] → step.Holds ev env))
      k.body.nests n.stagePlans := by
  have hboth := forall₂_and (Netlist.forall₂_translates h) (Netlist.forall₂_writesUnder h)
  refine hboth.imp fun nest plan hnest => ⟨?_, stores_eq_iff ev hnest.1.actions⟩
  rcases hnest.2 with ⟨write, hwrite, hguard⟩
  exact ⟨write, hwrite, hguard, by rw [hguard]; exact write.conjunction_guards_iff⟩

/-- Constants and loop variables have their values, an equality of the two is worth one
    or zero, and everything else is worth zero. -/
def Valuation.ofIndices : Valuation where
  value env e :=
    match e.constant?, e with
    | some v, _ => v
    | none, .var _ name => (env.lookup name).getD 0
    | none, .binary .eq (.var _ name) b => if env.lookup name = b.constant? then 1 else 0
    | none, _ => 0
  constant env e v h := by rw [h]

/-- A kernel with one loop over a row of two. -/
def pairKernel (body : List Stmt) : Kernel :=
  ⟨"pair", [.stream "in.stencil.stream" (.uint 8) [1] [2] false,
    .stream "out.stencil.stream" (.uint 8) [1] [2] true],
    .forLoop "x" 0 2 (.realizeOver "out.stencil" (.uint 8) [1] (.block body))⟩

/-- Reads every element, and writes the second one only. -/
def secondOnly : Kernel :=
  pairKernel [.readStream "in.stencil.stream" "in.stencil" none,
    .provideOne "out.stencil" (.stencil "in.stencil" (.uint 8) [.ofInt 0]) [.ofInt 0],
    .ifThen (.binary .eq (.index "x") (.ofInt 1))
      (.writeStream "out.stencil.stream" "out.stencil" [])]

theorem guard_and_stores_iff_secondOnly :
    ∃ n plan write, Netlist.ofKernel secondOnly = .ok n ∧ n.stagePlans = [plan] ∧
      secondOnly.body.writeSteps = [write] ∧ write.conditions ≠ [] ∧
      plan.writeGuard = LoopNest.conjunction write.conditions ∧
      plan.stores = plan.environments.flatMap (secondOnly.body.storesAt .ofIndices) := by
  have haccepted : (Netlist.ofKernel secondOnly).toBool = true := by decide +kernel
  rcases Fallible.exists_ok haccepted with ⟨n, hn⟩
  have hall := guard_and_stores_iff .ofIndices secondOnly n hn
  generalize hplans : n.stagePlans = plans at hall
  rcases hall with _ | ⟨⟨⟨write, hwrite, _, hguard⟩, hstores⟩, _ | _⟩
  have hread : ∀ write ∈ secondOnly.body.writeSteps, write.conditions ≠ [] ∧
      ∀ c ∈ write.around, c.body.containsReadStream = false := by decide +kernel
  have hbare : ∀ step ∈ secondOnly.body.steps, step.stores = [] ∨ step.conditions = [] := by
    decide +kernel
  rcases hread write (hwrite ▸ List.mem_singleton_self write) with ⟨hne, hkept⟩
  refine ⟨n, _, write, hn, hplans, hwrite, hne, hguard.mpr hkept, hstores.mpr ?_⟩
  intro _ _ step hstep hstore
  rw [Step.Holds, (hbare step hstep).resolve_left hstore]
  exact List.forall_mem_nil _

/-- Reads, stores and writes at the first element only. -/
def firstOnly : Kernel :=
  pairKernel [.ifThen (.binary .eq (.index "x") (.ofInt 0)) (.block [
    .readStream "in.stencil.stream" "in.stencil" none,
    .provideOne "out.stencil" (.stencil "in.stencil" (.uint 8) [.ofInt 0]) [.ofInt 0],
    .writeStream "out.stencil.stream" "out.stencil" []])]

/-- A condition around a read, a store and a write is dropped: the stage stores and
    writes at every position. -/
theorem guards_firstOnly_dropped :
    ∃ n plan write, Netlist.ofKernel firstOnly = .ok n ∧ n.stagePlans = [plan] ∧
      firstOnly.body.writeSteps = [write] ∧
      write.conditions = [.binary .eq (.index "x") (.ofInt 0)] ∧ plan.writeGuard = none ∧
      plan.stores ≠ plan.environments.flatMap (firstOnly.body.storesAt .ofIndices) := by
  have haccepted : (Netlist.ofKernel firstOnly).toBool = true := by decide +kernel
  rcases Fallible.exists_ok haccepted with ⟨n, hn⟩
  have hall := forall₂_and (Netlist.forall₂_translates hn) (Netlist.forall₂_writesUnder hn)
  generalize hplans : n.stagePlans = plans at hall
  rcases hall with _ | ⟨⟨htranslates, write, hwrite, hguard⟩, _ | _⟩
  have hdropped : ∀ write ∈ firstOnly.body.writeSteps, write.guards = [] ∧
      write.conditions = [.binary .eq (.index "x") (.ofInt 0)] := by decide +kernel
  rcases hdropped write (hwrite ▸ List.mem_singleton_self write) with ⟨hnone, hconditions⟩
  refine ⟨n, _, write, hn, hplans, hwrite, hconditions, by rw [hguard, hnone]; rfl, ?_⟩
  have hnest : Translates firstOnly.body _ := htranslates
  rw [Ne, stores_eq_iff .ofIndices hnest.actions, StagePlan.environments, hnest.vars]
  -- The condition fails at the second position, where the store is carried out, too.
  decide +kernel

end StencilRtl
