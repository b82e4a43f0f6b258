import StencilRtl.Name
import StencilRtl.Netlist.StagePlan
import StencilRtl.Proofs.LoopControl.Positions

/-!
# Executions of a Loop Nest

What a loop nest does when its statements are carried out one after the other,
and what a stage does instead.

A stage knows one list of loops and one list of actions, and carries out the
whole list at every position of the loops. A nest is a tree. Its loops may stand
side by side, and an action may stand before, behind or between them, so what the
nest does is only the same when it hardly is a tree at all: every action has to
stand inside all of the loops. `IsPerfect` says so in terms of `sites`, which
lists for every action the loops around it, and `executions_eq_walk_iff` says
that nothing weaker will do.

One direction is an induction on the statement. In the other one the trees are
gone already, and all that is compared are lengths: every site is visited, since
the loops run, and a visit records one value for each loop around it.

## Main definitions

* `Execution`: An action with the values of the loops around it.
* `Valuation`: What expressions evaluate to.
* `Stmt.executions`: What a statement does, in order.
* `Stmt.loops`, `Stmt.actions`: The loops and actions of a statement, flattened.
* `Stmt.IsPerfect`: Every action stands inside all of the loops.
* `StagePlan.executions`: What a stage does, in order.

## Theorems

* `executions_eq_walk`: A perfect nest does what its flattened form does.
* `exists_execution_of_site`: Every action is carried out with a value for each
  loop around it.
* `executions_eq_walk_iff`: Only a perfect nest does what its flattened form does.
-/

namespace StencilRtl

/-- The values of some loop variables, outermost first. -/
abbrev LoopEnv := List (String × Int)

/-- An action that was carried out, and the values of the loops around it. -/
structure Execution where
  action : Action
  loops : LoopEnv
  deriving DecidableEq, Repr

/-- What expressions evaluate to at some values of the loop variables. Nothing
    else is known of it than that a constant has its own value. -/
structure Valuation where
  value : LoopEnv → Expr → Int
  constant : ∀ env e v, e.constant? = some v → value env e = v

/-- Everything but a constant is worth zero. -/
def Valuation.ofConstants : Valuation :=
  ⟨fun _ e => e.constant?.getD 0, fun _ e v h => by rw [h, Option.getD_some]⟩

/-- The flattened loops and actions, carried out at every position. -/
def walk (vars : List LoopVar) (actions : List Action) (env : LoopEnv) : List Execution :=
  (LoopVar.positions vars).flatMap fun position =>
    actions.map fun a =>
      ⟨a, env ++ (vars.map LoopVar.name).zip (position.map Int.ofNat)⟩

theorem walk_nil_vars (actions : List Action) (env : LoopEnv) :
    walk [] actions env = actions.map fun a => ⟨a, env⟩ := by
  simp only [walk, LoopVar.positions, List.flatMap_cons, List.flatMap_nil, List.append_nil,
    List.map_nil, List.zip_nil_left]

theorem walk_nil_actions (vars : List LoopVar) (env : LoopEnv) : walk vars [] env = [] := by
  simp only [walk, List.map_nil, List.flatMap_eq_nil_iff, implies_true]

/-- The outermost loop walks the others once for each of its values. -/
theorem walk_cons (v : LoopVar) (inner : List LoopVar) (actions : List Action) (env : LoopEnv) :
    walk (v :: inner) actions env
      = (List.range v.extent).flatMap fun i =>
          walk inner actions (env ++ [(v.name, (v.min : Int) + Int.ofNat i)]) := by
  simp only [walk, LoopVar.positions, List.range'_eq_map_range, List.flatMap_map,
    List.flatMap_assoc, List.map_cons, List.zip_cons_cons, List.append_assoc,
    List.singleton_append, Int.ofNat_eq_natCast, Int.natCast_add]

/-- Every walk records a value for each of the loops. -/
theorem length_loops_of_mem_walk {vars : List LoopVar} {actions : List Action} {env : LoopEnv}
    {x : Execution} (h : x ∈ walk vars actions env) :
    x.loops.length = env.length + vars.length := by
  simp only [walk, LoopVar.positions_eq_map, List.mem_flatMap, List.mem_map] at h
  rcases h with ⟨_, ⟨k, _, rfl⟩, a, _, rfl⟩
  simp only [List.length_append, List.length_zip, List.length_map, LoopVar.length_position,
    Nat.min_self]

/-- What a stage does, in order: all of its actions at every position of its
    loops. -/
def StagePlan.executions (p : StagePlan) : List Execution := walk p.vars p.actions []

/-- The variable of a loop with constant bounds. -/
def LoopVar.ofLoop (name : String) (min extent : Expr) : LoopVar :=
  ⟨printName name, (min.constant?.getD 0).toNat, (extent.constant?.getD 0).toNat⟩

namespace Node

/-- The loops a node is: itself or none. -/
def loops : Node → List LoopVar
  | .stmt (.loop name min extent _ _) => [.ofLoop name min extent]
  | _ => []

/-- The actions a node is. -/
def actions : Node → List Action
  | .stmt (.letIn name value _) => [.letIn (printName name) value]
  | .stmt (.provide name values args) =>
      values.map fun value => .provide (printName name) args value
  | _ => []

/-- A loop begins at a constant that is not negative, and has a constant number
    of iterations, at least one. -/
def Bounded : Node → Prop
  | .stmt (.loop _ min extent _ _) =>
      (∃ first, min.constant? = some first ∧ 0 ≤ first) ∧
        ∃ count, extent.constant? = some count ∧ 0 < count
  | _ => True

/-- Whether a node is a conditional. -/
def isBranch : Node → Bool
  | .stmt (.branch _ _ _) => true
  | _ => false

end Node

namespace Stmt

/-- The loops of a statement, in reading order. -/
def loops (s : Stmt) : List LoopVar := s.nodes.flatMap Node.loops

/-- The actions of a statement, in reading order. -/
def actions (s : Stmt) : List Action := s.nodes.flatMap Node.actions

/-- The loops of a statement have constant bounds and run. -/
def Bounded (s : Stmt) : Prop := ∀ n ∈ s.nodes, n.Bounded

/-- There is no conditional in a statement. -/
def BranchFree (s : Stmt) : Prop := ∀ n ∈ s.nodes, n.isBranch = false

instance (s : Stmt) : Decidable s.BranchFree :=
  inferInstanceAs (Decidable (∀ n ∈ s.nodes, n.isBranch = false))

mutual

/-- What a statement does, in order. -/
def executions (ev : Valuation) (env : LoopEnv) : Stmt → List Execution
  | .letIn name value body => ⟨.letIn (printName name) value, env⟩ :: body.executions ev env
  | .producer _ _ body => body.executions ev env
  | .loop name min extent _ body =>
      (List.range (ev.value env extent).toNat).flatMap fun i =>
        body.executions ev (env ++ [(printName name, ev.value env min + Int.ofNat i)])
  | .provide name values args =>
      values.map fun value => ⟨.provide (printName name) args value, env⟩
  | .realize _ _ _ body => body.executions ev env
  | .block stmts => executionsOfList ev env stmts
  | .branch condition thenCase elseCase =>
      if ev.value env condition = 0 then executionsOfOption ev env elseCase
      else thenCase.executions ev env
  | .allocate _ _ _ body => body.executions ev env
  | .assert _ _ => []
  | .evaluate _ => []
  | .store _ _ _ => []
  | .free _ => []

/-- What some statements do one after the other. -/
def executionsOfList (ev : Valuation) (env : LoopEnv) : List Stmt → List Execution
  | [] => []
  | s :: rest => s.executions ev env ++ executionsOfList ev env rest

/-- What an optional statement does. -/
def executionsOfOption (ev : Valuation) (env : LoopEnv) : Option Stmt → List Execution
  | none => []
  | some s => s.executions ev env

end

mutual

/-- For every action, the loops of the statement that stand around it. -/
def sites : Stmt → List (List LoopVar)
  | .letIn _ _ body => [] :: body.sites
  | .producer _ _ body => body.sites
  | .loop name min extent _ body => body.sites.map (.ofLoop name min extent :: ·)
  | .provide _ values _ => values.map fun _ => []
  | .realize _ _ _ body => body.sites
  | .block stmts => sitesOfList stmts
  | .branch _ thenCase elseCase => thenCase.sites ++ sitesOfOption elseCase
  | .allocate _ _ _ body => body.sites
  | .assert _ _ => []
  | .evaluate _ => []
  | .store _ _ _ => []
  | .free _ => []

/-- For every action of some statements, the loops around it. -/
def sitesOfList : List Stmt → List (List LoopVar)
  | [] => []
  | s :: rest => s.sites ++ sitesOfList rest

/-- For every action of an optional statement, the loops around it. -/
def sitesOfOption : Option Stmt → List (List LoopVar)
  | none => []
  | some s => s.sites

end

/-- Every action stands inside all of the loops. -/
def IsPerfect (s : Stmt) : Prop := ∀ around ∈ s.sites, around = s.loops

instance (s : Stmt) : Decidable s.IsPerfect :=
  inferInstanceAs (Decidable (∀ around ∈ s.sites, around = s.loops))

@[simp] theorem flatMap_loops_exprs (es : List Expr) :
    (es.map Node.expr).flatMap Node.loops = [] := by
  rw [List.flatMap_map]
  exact List.flatMap_eq_nil_iff.mpr fun _ _ => rfl

@[simp] theorem flatMap_actions_exprs (es : List Expr) :
    (es.map Node.expr).flatMap Node.actions = [] := by
  rw [List.flatMap_map]
  exact List.flatMap_eq_nil_iff.mpr fun _ _ => rfl

mutual

/-- There is one site for every action. -/
theorem length_sites : ∀ s : Stmt, s.sites.length = s.actions.length
  | .letIn _ _ body => by
      have hbody := length_sites body
      simp only [actions] at hbody
      simp [sites, actions, nodes, Node.actions, exprNodes, hbody]
  | .producer _ _ body => by
      have hbody := length_sites body
      simp only [actions] at hbody
      simp [sites, actions, nodes, Node.actions, hbody]
  | .loop _ _ _ _ body => by
      have hbody := length_sites body
      simp only [actions] at hbody
      simp [sites, actions, nodes, Node.actions, exprNodes, hbody]
  | .provide _ _ _ => by simp [sites, actions, nodes, Node.actions, exprsNodes]
  | .realize _ _ _ body => by
      have hbody := length_sites body
      simp only [actions] at hbody
      simp [sites, actions, nodes, Node.actions, hbody]
  | .block stmts => by
      have hstmts := length_sitesOfList stmts
      simp [sites, actions, nodes, Node.actions, hstmts]
  | .branch _ thenCase elseCase => by
      have hthen := length_sites thenCase
      have helse := length_sitesOfOption elseCase
      simp only [actions] at hthen
      simp [sites, actions, nodes, Node.actions, exprNodes, hthen, helse]
  | .allocate _ _ _ body => by
      have hbody := length_sites body
      simp only [actions] at hbody
      simp [sites, actions, nodes, Node.actions, exprsNodes, hbody]
  | .assert _ _ => by simp [sites, actions, nodes, Node.actions, exprNodes]
  | .evaluate _ => by simp [sites, actions, nodes, Node.actions, exprNodes]
  | .store _ _ _ => by simp [sites, actions, nodes, Node.actions, exprNodes]
  | .free _ => by simp [sites, actions, nodes, Node.actions]

theorem length_sitesOfList : ∀ ss : List Stmt,
    (sitesOfList ss).length = ((nodesOfList ss).flatMap Node.actions).length
  | [] => rfl
  | s :: rest => by
      have hs := length_sites s
      have hrest := length_sitesOfList rest
      simp only [actions] at hs
      simp only [sitesOfList, nodesOfList, List.length_append, List.flatMap_append, hs, hrest]

theorem length_sitesOfOption : ∀ s : Option Stmt,
    (sitesOfOption s).length = ((nodesOfOption s).flatMap Node.actions).length
  | none => rfl
  | some s => length_sites s

end

mutual

/-- The loops around an action are some of the loops. -/
theorem sublist_of_site : ∀ (s : Stmt), ∀ around ∈ s.sites, around.Sublist s.loops
  | .letIn _ _ body, around, h => by
      have hbody := sublist_of_site body around
      simp only [sites, List.mem_cons] at h
      simp only [loops, nodes, List.flatMap_cons, Node.loops, List.nil_append, exprNodes,
        List.flatMap_append, flatMap_loops_exprs]
      rcases h with rfl | h
      · exact List.nil_sublist _
      · exact hbody h
  | .producer _ _ body, around, h => by
      simpa [loops, nodes, Node.loops] using sublist_of_site body around h
  | .loop _ _ _ _ body, around, h => by
      simp only [sites, List.mem_map] at h
      rcases h with ⟨inner, hinner, rfl⟩
      have hbody := sublist_of_site body inner hinner
      simpa [loops, nodes, Node.loops, exprNodes] using hbody
  | .provide _ values _, around, h => by
      simp only [sites, List.mem_map] at h
      rcases h with ⟨_, _, rfl⟩
      exact List.nil_sublist _
  | .realize _ _ _ body, around, h => by
      simpa [loops, nodes, Node.loops] using sublist_of_site body around h
  | .block stmts, around, h => by
      simpa [loops, nodes, Node.loops] using sublist_of_siteOfList stmts around h
  | .branch _ thenCase elseCase, around, h => by
      simp only [sites, List.mem_append] at h
      simp only [loops, nodes, List.flatMap_cons, Node.loops, List.nil_append, exprNodes,
        List.flatMap_append, flatMap_loops_exprs]
      rcases h with h | h
      · exact (sublist_of_site thenCase around h).trans (List.sublist_append_left ..)
      · exact (sublist_of_siteOfOption elseCase around h).trans (List.sublist_append_right ..)
  | .allocate _ _ _ body, around, h => by
      simpa [loops, nodes, Node.loops, exprsNodes] using sublist_of_site body around h

theorem sublist_of_siteOfList : ∀ (ss : List Stmt), ∀ around ∈ sitesOfList ss,
    around.Sublist ((nodesOfList ss).flatMap Node.loops)
  | s :: rest, around, h => by
      simp only [sitesOfList, List.mem_append] at h
      simp only [nodesOfList, List.flatMap_append]
      rcases h with h | h
      · exact (sublist_of_site s around h).trans (List.sublist_append_left ..)
      · exact (sublist_of_siteOfList rest around h).trans (List.sublist_append_right ..)

theorem sublist_of_siteOfOption : ∀ (s : Option Stmt), ∀ around ∈ sitesOfOption s,
    around.Sublist ((nodesOfOption s).flatMap Node.loops)
  | some s, around, h => sublist_of_site s around h

end

section Sequence

variable (ev : Valuation)

/-- A loop that is bounded takes the values of its variable. -/
theorem value_of_bounded {name : String} {min extent : Expr} {kind : ForKind} {body : Stmt}
    (h : (Node.stmt (.loop name min extent kind body)).Bounded) (env : LoopEnv) :
    0 < (LoopVar.ofLoop name min extent).extent ∧
      (ev.value env extent).toNat = (LoopVar.ofLoop name min extent).extent ∧
      ev.value env min = (LoopVar.ofLoop name min extent).min := by
  rcases h with ⟨⟨first, hmin, hfirst⟩, count, hextent, hcount⟩
  rw [ev.constant env extent count hextent, ev.constant env min first hmin]
  simp only [LoopVar.ofLoop, hmin, hextent, Option.getD_some]
  exact ⟨by omega, trivial, by omega⟩

mutual

/-- A perfect nest does what its flattened form does. -/
theorem executions_eq_walk : ∀ (s : Stmt) (env : LoopEnv), (∀ n ∈ s.nodes, n.Bounded) →
    (∀ n ∈ s.nodes, n.isBranch = false) → (∀ around ∈ s.sites, around = s.loops) →
    s.executions ev env = walk s.loops s.actions env
  | .letIn name value body, env, hb, hf, hp => by
      have hloops : (Stmt.letIn name value body).loops = body.loops := by
        simp [loops, nodes, Node.loops, exprNodes]
      have hactions : (Stmt.letIn name value body).actions
          = .letIn (printName name) value :: body.actions := by
        simp [actions, nodes, Node.actions, exprNodes]
      rw [hloops] at hp
      -- The binding itself stands in no loop, so its body has none either.
      have hnone : [] = body.loops := hp [] (List.mem_cons_self ..)
      have hbody := executions_eq_walk body env (fun n hn => hb n (by simp [nodes, hn]))
        (fun n hn => hf n (by simp [nodes, hn])) fun σ hσ => hp σ (List.mem_cons_of_mem _ hσ)
      rw [hloops, hactions, executions, hbody, ← hnone, walk_nil_vars, walk_nil_vars,
        List.map_cons]
  | .producer name isProducer body, env, hb, hf, hp => by
      have hloops : (Stmt.producer name isProducer body).loops = body.loops := by
        simp [loops, nodes, Node.loops]
      have hactions : (Stmt.producer name isProducer body).actions = body.actions := by
        simp [actions, nodes, Node.actions]
      rw [hloops] at hp
      rw [hloops, hactions, executions]
      exact executions_eq_walk body env (fun n hn => hb n (by simp [nodes, hn]))
        (fun n hn => hf n (by simp [nodes, hn])) hp
  | .loop name min extent kind body, env, hb, hf, hp => by
      have hloops : (Stmt.loop name min extent kind body).loops
          = .ofLoop name min extent :: body.loops := by
        simp [loops, nodes, Node.loops, exprNodes]
      have hactions : (Stmt.loop name min extent kind body).actions = body.actions := by
        simp [actions, nodes, Node.actions, exprNodes]
      -- What stands in all loops of the loop stands in all loops of its body.
      have hinner : ∀ around ∈ body.sites, around = body.loops := by
        intro around hσ
        have hsite := hp _ (List.mem_map_of_mem hσ)
        rw [hloops, List.cons.injEq] at hsite
        exact hsite.2
      rcases value_of_bounded ev (hb _ (List.mem_cons_self ..)) env with ⟨_, hcount, hmin⟩
      rw [hloops, hactions, executions, hcount, hmin, walk_cons]
      congr 1
      funext i
      exact executions_eq_walk body _ (fun n hn => hb n (by simp [nodes, hn]))
        (fun n hn => hf n (by simp [nodes, hn])) hinner
  | .provide name values args, env, _, _, _ => by
      have hloops : (Stmt.provide name values args).loops = [] := by
        simp [loops, nodes, Node.loops, exprsNodes]
      have hactions : (Stmt.provide name values args).actions
          = values.map fun value => .provide (printName name) args value := by
        simp [actions, nodes, Node.actions, exprsNodes]
      rw [hloops, hactions, walk_nil_vars, executions, List.map_map]
      rfl
  | .realize name types bounds body, env, hb, hf, hp => by
      have hloops : (Stmt.realize name types bounds body).loops = body.loops := by
        simp [loops, nodes, Node.loops]
      have hactions : (Stmt.realize name types bounds body).actions = body.actions := by
        simp [actions, nodes, Node.actions]
      rw [hloops] at hp
      rw [hloops, hactions, executions]
      exact executions_eq_walk body env (fun n hn => hb n (by simp [nodes, hn]))
        (fun n hn => hf n (by simp [nodes, hn])) hp
  | .block stmts, env, hb, hf, hp => by
      have hloops : (Stmt.block stmts).loops = (nodesOfList stmts).flatMap Node.loops := by
        simp [loops, nodes, Node.loops]
      have hactions : (Stmt.block stmts).actions = (nodesOfList stmts).flatMap Node.actions := by
        simp [actions, nodes, Node.actions]
      rw [hloops] at hp
      rw [hloops, hactions, executions]
      exact executionsOfList_eq_walk stmts env (fun n hn => hb n (by simp [nodes, hn]))
        (fun n hn => hf n (by simp [nodes, hn])) hp
  | .branch _ _ _, _, _, hf, _ => absurd (hf _ (List.mem_cons_self ..)) (by simp [Node.isBranch])
  | .allocate name type extents body, env, hb, hf, hp => by
      have hloops : (Stmt.allocate name type extents body).loops = body.loops := by
        simp [loops, nodes, Node.loops, exprsNodes]
      have hactions : (Stmt.allocate name type extents body).actions = body.actions := by
        simp [actions, nodes, Node.actions, exprsNodes]
      rw [hloops] at hp
      rw [hloops, hactions, executions]
      exact executions_eq_walk body env (fun n hn => hb n (by simp [nodes, hn]))
        (fun n hn => hf n (by simp [nodes, hn])) hp
  | .assert _ _, _, _, _, _ => by
      simp [executions, actions, nodes, Node.actions, exprNodes, walk_nil_actions]
  | .evaluate _, _, _, _, _ => by
      simp [executions, actions, nodes, Node.actions, exprNodes, walk_nil_actions]
  | .store _ _ _, _, _, _, _ => by
      simp [executions, actions, nodes, Node.actions, exprNodes, walk_nil_actions]
  | .free _, _, _, _, _ => by
      simp [executions, actions, nodes, Node.actions, walk_nil_actions]

/-- Of several statements with actions, none has a loop. -/
theorem executionsOfList_eq_walk : ∀ (ss : List Stmt) (env : LoopEnv),
    (∀ n ∈ nodesOfList ss, n.Bounded) → (∀ n ∈ nodesOfList ss, n.isBranch = false) →
    (∀ around ∈ sitesOfList ss, around = (nodesOfList ss).flatMap Node.loops) →
    executionsOfList ev env ss
      = walk ((nodesOfList ss).flatMap Node.loops) ((nodesOfList ss).flatMap Node.actions) env
  | [], env, _, _, _ => (walk_nil_actions _ _).symm
  | s :: rest, env, hb, hf, hp => by
      simp only [nodesOfList, List.mem_append] at hb hf
      simp only [nodesOfList, List.flatMap_append, sitesOfList, List.mem_append] at hp
      simp only [executionsOfList, nodesOfList, List.flatMap_append]
      have hs : s.sites ≠ [] → (nodesOfList rest).flatMap Node.loops = [] := by
        intro hne
        rcases List.exists_mem_of_ne_nil _ hne with ⟨σ, hσ⟩
        have hle := (sublist_of_site s σ hσ).length_le
        rw [hp σ (.inl hσ), List.length_append, loops] at hle
        exact List.length_eq_zero_iff.mp (by omega)
      have hr : sitesOfList rest ≠ [] → s.nodes.flatMap Node.loops = [] := by
        intro hne
        rcases List.exists_mem_of_ne_nil _ hne with ⟨σ, hσ⟩
        have hle := (sublist_of_siteOfList rest σ hσ).length_le
        rw [hp σ (.inr hσ), List.length_append] at hle
        exact List.length_eq_zero_iff.mp (by omega)
      have hsites : ∀ around ∈ s.sites, around = s.loops := by
        intro σ hσ
        rw [hp σ (.inl hσ), hs (List.ne_nil_of_mem hσ), List.append_nil, loops]
      have hsitesRest : ∀ around ∈ sitesOfList rest,
          around = (nodesOfList rest).flatMap Node.loops := by
        intro σ hσ
        rw [hp σ (.inr hσ), hr (List.ne_nil_of_mem hσ), List.nil_append]
      have hfirst := executions_eq_walk s env (fun n hn => hb n (.inl hn))
        (fun n hn => hf n (.inl hn)) hsites
      have hsecond := executionsOfList_eq_walk rest env (fun n hn => hb n (.inr hn))
        (fun n hn => hf n (.inr hn)) hsitesRest
      rw [hfirst, hsecond, loops, actions]
      by_cases hnone : s.sites = []
      · -- The first statement does nothing.
        have hactions : s.nodes.flatMap Node.actions = [] := by
          have hlen := length_sites s
          rw [hnone, actions] at hlen
          exact List.length_eq_zero_iff.mp hlen.symm
        rw [hactions, walk_nil_actions, List.nil_append, List.nil_append]
        by_cases hrest : sitesOfList rest = []
        · have hlen := length_sitesOfList rest
          rw [hrest] at hlen
          rw [List.length_eq_zero_iff.mp hlen.symm, walk_nil_actions, walk_nil_actions]
        · rw [hr hrest, List.nil_append]
      · rw [hs hnone, List.append_nil]
        by_cases hrest : sitesOfList rest = []
        · have hlen := length_sitesOfList rest
          rw [hrest] at hlen
          rw [List.length_eq_zero_iff.mp hlen.symm, walk_nil_actions, List.append_nil,
            List.append_nil]
        · rw [hr hrest, walk_nil_vars, walk_nil_vars, walk_nil_vars, List.map_append]

end

mutual

/-- Every action is carried out with a value for each loop around it. -/
theorem exists_execution_of_site : ∀ (s : Stmt) (env : LoopEnv), (∀ n ∈ s.nodes, n.Bounded) →
    (∀ n ∈ s.nodes, n.isBranch = false) → ∀ around ∈ s.sites,
    ∃ x ∈ s.executions ev env, x.loops.length = env.length + around.length
  | .letIn name value body, env, hb, hf, around, h => by
      simp only [sites, List.mem_cons] at h
      rcases h with rfl | h
      · exact ⟨⟨.letIn (printName name) value, env⟩, List.mem_cons_self .., rfl⟩
      · rcases exists_execution_of_site body env (fun n hn => hb n (by simp [nodes, hn]))
          (fun n hn => hf n (by simp [nodes, hn])) around h with ⟨x, hx, hlen⟩
        exact ⟨x, List.mem_cons_of_mem _ hx, hlen⟩
  | .producer _ _ body, env, hb, hf, around, h =>
      exists_execution_of_site body env (fun n hn => hb n (by simp [nodes, hn]))
        (fun n hn => hf n (by simp [nodes, hn])) around h
  | .loop name min extent kind body, env, hb, hf, around, h => by
      simp only [sites, List.mem_map] at h
      rcases h with ⟨inner, hinner, rfl⟩
      rcases value_of_bounded ev (hb _ (List.mem_cons_self ..)) env with ⟨hpos, hcount, _⟩
      -- The loop runs, so its first iteration will do.
      rcases exists_execution_of_site body
        (env ++ [(printName name, ev.value env min + Int.ofNat 0)])
        (fun n hn => hb n (by simp [nodes, hn])) (fun n hn => hf n (by simp [nodes, hn]))
        inner hinner with ⟨x, hx, hlen⟩
      refine ⟨x, ?_, ?_⟩
      · rw [executions, List.mem_flatMap]
        exact ⟨0, List.mem_range.mpr (by omega), hx⟩
      · rw [hlen, List.length_append, List.length_cons, List.length_cons, List.length_nil]
        omega
  | .provide name values args, env, _, _, around, h => by
      simp only [sites, List.mem_map] at h
      rcases h with ⟨value, hvalue, rfl⟩
      exact ⟨⟨.provide (printName name) args value, env⟩, List.mem_map_of_mem hvalue, rfl⟩
  | .realize _ _ _ body, env, hb, hf, around, h =>
      exists_execution_of_site body env (fun n hn => hb n (by simp [nodes, hn]))
        (fun n hn => hf n (by simp [nodes, hn])) around h
  | .block stmts, env, hb, hf, around, h =>
      exists_execution_of_siteOfList stmts env (fun n hn => hb n (by simp [nodes, hn]))
        (fun n hn => hf n (by simp [nodes, hn])) around h
  | .branch _ _ _, _, _, hf, _, _ => absurd (hf _ (List.mem_cons_self ..)) (by simp [Node.isBranch])
  | .allocate _ _ _ body, env, hb, hf, around, h =>
      exists_execution_of_site body env (fun n hn => hb n (by simp [nodes, hn]))
        (fun n hn => hf n (by simp [nodes, hn])) around h

theorem exists_execution_of_siteOfList : ∀ (ss : List Stmt) (env : LoopEnv),
    (∀ n ∈ nodesOfList ss, n.Bounded) → (∀ n ∈ nodesOfList ss, n.isBranch = false) →
    ∀ around ∈ sitesOfList ss,
    ∃ x ∈ executionsOfList ev env ss, x.loops.length = env.length + around.length
  | s :: rest, env, hb, hf, around, h => by
      simp only [nodesOfList, List.mem_append] at hb hf
      simp only [sitesOfList, List.mem_append] at h
      rcases h with h | h
      · rcases exists_execution_of_site s env (fun n hn => hb n (.inl hn))
          (fun n hn => hf n (.inl hn)) around h with ⟨x, hx, hlen⟩
        exact ⟨x, List.mem_append_left _ hx, hlen⟩
      · rcases exists_execution_of_siteOfList rest env (fun n hn => hb n (.inr hn))
          (fun n hn => hf n (.inr hn)) around h with ⟨x, hx, hlen⟩
        exact ⟨x, List.mem_append_right _ hx, hlen⟩

end

/-- Only a perfect nest does what its flattened form does. -/
theorem executions_eq_walk_iff {s : Stmt} (hb : s.Bounded) (hf : s.BranchFree) :
    s.executions ev [] = walk s.loops s.actions [] ↔ s.IsPerfect := by
  constructor
  · intro heq around h
    rcases exists_execution_of_site ev s [] hb hf around h with ⟨x, hx, hlen⟩
    rw [heq] at hx
    have hall : around.length = s.loops.length := by
      have hvisit := length_loops_of_mem_walk hx
      omega
    exact (sublist_of_site s around h).eq_of_length hall
  · exact executions_eq_walk ev s [] hb hf

end Sequence

end Stmt

end StencilRtl
