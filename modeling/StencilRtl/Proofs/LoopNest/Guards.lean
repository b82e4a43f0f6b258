import StencilRtl.Proofs.LoopNest.Translation
import StencilRtl.Proofs.Netlist.Reading

/-!
# Conditions around a Write

What becomes of the conditions a nest writes under.

A conditional is let through for the sake of a stream operation inside it. If it contains
a read, its condition is not looked at any more, since a read happens anyway. Otherwise
it contains a write, and its condition is kept for the write. So what guards the write of
a stage are the conditions of those conditionals around the write that contain no read,
and a conditional with both a read and a write loses its condition. The conditions around
a store are nowhere looked at.

To say this, the conditionals around every statement have to be known together with the
case the statement stands in. `Stmt.steps` lists them. A nest has one write, and while it
is read the conditions around the current statement are the end of a list, so a condition
is put in front of those of the write just if it is kept.

## Main definitions

* `Conditional`, `Step`: A statement with the conditionals around it.
* `Stmt.steps`, `Stmt.writeSteps`: The steps of a statement, and its writes.
* `Step.guards`: The conditions around a step that are kept for a write.
* `WritesUnder`: A stage writes under the conditions its nest keeps.

## Theorems

* `statement_guards`: Reading a statement, by induction.
* `forall₂_writesUnder`: The stages of a design write under the conditions that are kept.
-/

namespace StencilRtl

/-- A conditional around a statement: its condition, and the case of it in which the
    statement stands. -/
structure Conditional where
  condition : Expr
  body : Stmt
  deriving DecidableEq

/-- A statement that stores or is evaluated, and the conditionals around it, outermost
    first. -/
structure Step where
  around : List Conditional
  stmt : Stmt
  deriving DecidableEq

namespace Step

/-- A step inside one more conditional. -/
def under (c : Conditional) (s : Step) : Step := { s with around := c :: s.around }

/-- The conditions around a step, outermost first. -/
def conditions (s : Step) : List Expr := s.around.map Conditional.condition

/-- The conditions around a step of the conditionals that contain no read. -/
def guards (s : Step) : List Expr :=
  (s.around.filter fun c => !c.body.containsReadStream).map Conditional.condition

/-- Whether a step writes a stream. -/
def isWrite (s : Step) : Bool :=
  match s.stmt with
  | .evaluate e => e.isCallOf WriteStream.callName
  | _ => false

theorem guards_under_of_read {c : Conditional} (h : c.body.containsReadStream = true) (s : Step) :
    (s.under c).guards = s.guards := by
  simp [guards, under, h]

theorem guards_under {c : Conditional} (h : c.body.containsReadStream = false) (s : Step) :
    (s.under c).guards = c.condition :: s.guards := by
  simp [guards, under, h]

end Step

namespace Stmt

mutual

/-- The statements inside a statement that store or are evaluated, in reading order. In
    the other case of a conditional its condition does not hold. -/
def steps : Stmt → List Step
  | .letIn _ _ body => body.steps
  | .producer _ _ body => body.steps
  | .loop _ _ _ _ body => body.steps
  | .realize _ _ _ body => body.steps
  | .allocate _ _ _ body => body.steps
  | .block stmts => stepsOfList stmts
  | .branch condition thenCase elseCase =>
      thenCase.steps.map (Step.under ⟨condition, thenCase⟩)
        ++ stepsOfOption (.not condition) elseCase
  | s@(.provide _ _ _) => [⟨[], s⟩]
  | s@(.evaluate _) => [⟨[], s⟩]
  | .assert _ _ => []
  | .store _ _ _ => []
  | .free _ => []

/-- The steps of some statements, in reading order. -/
def stepsOfList : List Stmt → List Step
  | [] => []
  | s :: rest => s.steps ++ stepsOfList rest

/-- The steps of an optional statement under a condition. -/
def stepsOfOption (condition : Expr) : Option Stmt → List Step
  | none => []
  | some s => s.steps.map (Step.under ⟨condition, s⟩)

end

/-- The writes inside a statement, in reading order. -/
def writeSteps (s : Stmt) : List Step := s.steps.filter Step.isWrite

theorem writeSteps_block (stmts : List Stmt) :
    (block stmts).writeSteps = stmts.flatMap writeSteps := by
  rw [writeSteps, steps]
  induction stmts with
  | nil => rfl
  | cons s rest ih => rw [stepsOfList, List.filter_append, ih, List.flatMap_cons, writeSteps]

theorem writeSteps_branch (condition : Expr) (thenCase : Stmt) :
    (branch condition thenCase none).writeSteps
      = thenCase.writeSteps.map (Step.under ⟨condition, thenCase⟩) := by
  rw [writeSteps, steps, stepsOfOption, List.append_nil, List.filter_map, writeSteps]
  rfl

theorem writeSteps_evaluate (e : Expr) :
    (evaluate e).writeSteps
      = if e.isCallOf WriteStream.callName then [⟨[], .evaluate e⟩] else [] := by
  rw [writeSteps, steps, List.filter_cons]
  rfl

end Stmt

/-- A stage writes under the conditions its nest keeps for its one write. -/
def WritesUnder (nest : Stmt) (plan : StagePlan) : Prop :=
  ∃ write, nest.writeSteps = [write] ∧ plan.writeGuard = LoopNest.conjunction write.guards

namespace LoopNest

/-- What a nest becomes when some writes are read: a nest has one write at most, and it is
    guarded by the conditions around the nest's current statement and those of its own. -/
structure Writes (writes : List Step) (n n' : LoopNest) : Prop where
  guards : n'.guards = n.guards
  write : (writes = [] ∧ n'.output = n.output ∧ n'.writeGuard = n.writeGuard) ∨
    ∃ write, writes = [write] ∧ n.output = none ∧ n'.output ≠ none ∧
      n'.writeGuard = conjunction (n.guards ++ write.guards)

variable {n m n' : LoopNest}

/-- A nest in which nothing is written. -/
theorem Writes.same (hguards : n'.guards = n.guards) (houtput : n'.output = n.output)
    (hguard : n'.writeGuard = n.writeGuard) : Writes [] n n' :=
  ⟨hguards, .inl ⟨rfl, houtput, hguard⟩⟩

theorem Writes.trans {ws ws' : List Step} (h : Writes ws n m) (h' : Writes ws' m n') :
    Writes (ws ++ ws') n n' := by
  refine ⟨h'.guards.trans h.guards, ?_⟩
  rcases h.write with ⟨rfl, hm, hguard⟩ | ⟨w, rfl, hnone, hm, hguard⟩
  · rw [List.nil_append, ← hm, ← hguard, ← h.guards]
    exact h'.write
  · rcases h'.write with ⟨rfl, houtput, hguard'⟩ | ⟨_, _, hnone', _⟩
    · exact .inr ⟨w, List.append_nil _, hnone, houtput ▸ hm, hguard'.trans hguard⟩
    · exact absurd hnone' hm

/-- Inside a conditional that is kept, its condition is the first one of its own. -/
theorem Writes.under {c : Conditional} {ws : List Step}
    (hc : c.body.containsReadStream = false) (h : Writes ws (n.pushGuard c.condition) n') :
    Writes (ws.map (Step.under c)) n n'.popGuard := by
  refine ⟨?_, ?_⟩
  · rw [popGuard, h.guards]
    exact List.dropLast_concat
  · rcases h.write with ⟨rfl, houtput, hguard⟩ | ⟨w, rfl, hnone, houtput, hguard⟩
    · exact .inl ⟨rfl, houtput, hguard⟩
    · refine .inr ⟨w.under c, rfl, hnone, houtput, ?_⟩
      rw [Step.guards_under hc]
      simpa only [pushGuard, popGuard, List.append_assoc, List.singleton_append] using hguard

/-- Inside a conditional that is not kept, its condition is none of the write's. -/
theorem Writes.under_read {c : Conditional} {ws : List Step}
    (hc : c.body.containsReadStream = true) (h : Writes ws n n') :
    Writes (ws.map (Step.under c)) n n' := by
  refine ⟨h.guards, ?_⟩
  rcases h.write with ⟨rfl, hsame⟩ | ⟨w, rfl, hrest⟩
  · exact .inl ⟨rfl, hsame⟩
  · exact .inr ⟨w.under c, rfl, by rwa [Step.guards_under_of_read hc]⟩

theorem writes_enterLoop {name : String} {min extent : Expr} {body : Stmt}
    (h : n.enterLoop name min extent body = .ok n') : Writes [] n n' := by
  rcases enterLoop_ok h with ⟨_, _, _, _, _, _, ⟨_, rfl⟩ | rfl⟩
  · exact .same rfl rfl rfl
  · exact .same rfl rfl rfl

theorem writes_realize {name : String} {types : List ScalarType} {bounds : List Interval}
    (h : n.realize name types bounds = .ok n') : Writes [] n n' := by
  rcases realize_ok h with ⟨_, _, _, rfl⟩
  exact .same rfl rfl rfl

theorem writes_provide {name : String} {values args : List Expr}
    (h : n.provide name values args = .ok n') : Writes [] n n' := by
  rcases provide_ok h with ⟨_, _, _, rfl⟩
  exact .same rfl rfl rfl

theorem writes_bind {name : String} {value : Expr} (h : n.bind name value = .ok n') :
    Writes [] n n' := by
  rcases bind_ok h with ⟨_, rfl⟩
  exact .same rfl rfl rfl

theorem writes_read {call : ReadStream} {shape : Shape} (h : n.read call shape = .ok n') :
    Writes [] n n' := by
  rcases read_ok h with ⟨_, rfl⟩ | ⟨_, rfl⟩
  · exact .same rfl rfl rfl
  · exact .same rfl rfl rfl

/-- The write is guarded by the conditions around the current statement. -/
theorem writes_write {call : WriteStream} {shape : Shape} {stmt : Stmt}
    (h : n.write call shape = .ok n') : Writes [⟨[], stmt⟩] n n' := by
  rcases write_ok h with ⟨hnone, rfl⟩
  refine ⟨rfl, .inr ⟨_, rfl, hnone, by simp, ?_⟩⟩
  exact congrArg conjunction (List.append_nil _).symm

end LoopNest

/-- What reading some statements does to the conditions on writes. Inside a nest it has
    their writes. Outside of one a stage is added for each of the outermost loops among
    them, and it writes under the conditions the loop keeps. -/
structure Guards (nests : List Stmt) (writes : List Step) (c c' : Construction) : Prop where
  inside : ∀ n, c.nest = some n →
    (∃ n', c'.nest = some n' ∧ n.Writes writes n') ∧
      c'.netlist.stagePlans = c.netlist.stagePlans
  outside : c.nest = none →
    c'.nest = none ∧ ∃ plans, c'.netlist.stagePlans = c.netlist.stagePlans ++ plans ∧
      List.Forall₂ WritesUnder nests plans

namespace Guards

variable {c d c' : Construction} {p q : List Stmt} {ws ws' : List Step}

theorem append (h : Guards p ws c d) (h' : Guards q ws' d c') :
    Guards (p ++ q) (ws ++ ws') c c' := by
  constructor
  case inside =>
    intro n hn
    rcases h.inside n hn with ⟨⟨m, hm, hwrites⟩, hplans⟩
    rcases h'.inside m hm with ⟨⟨k, hk, hwrites'⟩, hplans'⟩
    exact ⟨⟨k, hk, hwrites.trans hwrites'⟩, hplans'.trans hplans⟩
  case outside =>
    intro hn
    rcases h.outside hn with ⟨hd, plans, hplans, hall⟩
    rcases h'.outside hd with ⟨hc', plans', hplans', hall'⟩
    refine ⟨hc', plans ++ plans', ?_, List.rel_append hall hall'⟩
    rw [hplans', hplans, List.append_assoc]

/-- What leaves the stages and the nest alone writes nothing. -/
theorem quiet (hnest : c'.nest = c.nest)
    (hplans : c'.netlist.stagePlans = c.netlist.stagePlans) : Guards [] [] c c' := by
  constructor
  case inside =>
    intro n hn
    exact ⟨⟨n, hnest.trans hn, .same rfl rfl rfl⟩, hplans⟩
  case outside =>
    intro hn
    exact ⟨hnest.trans hn, [], by rw [hplans, List.append_nil], .nil⟩

theorem keeps {α : Type} {m : Constructing α} {a : α} (hm : Construction.Keeps m)
    (h : m c = .ok (a, c')) : Guards [] [] c c' :=
  quiet (hm c a c' h).1 (hm c a c' h).2

/-- What the open nest writes is guarded as it is there. -/
theorem of_nest {before nest : LoopNest} (hbefore : c.nest = some before)
    (hwrites : before.Writes ws nest) : Guards [] ws c { c with nest := some nest } := by
  constructor
  case inside =>
    intro n hn
    rcases Option.some.inj (hbefore.symm.trans hn) with rfl
    exact ⟨⟨nest, rfl, hwrites⟩, rfl⟩
  case outside =>
    intro hn
    exact absurd (hbefore.symm.trans hn) (by simp)

/-- A change of the nest can only be asked for inside one. -/
theorem of_updateNest {change : LoopNest → Fallible LoopNest} {outside : Unsupported} {u : Unit}
    (hchange : ∀ n n', change n = .ok n' → n.Writes ws n')
    (h : Construction.updateNest change outside c = .ok (u, c')) : Guards [] ws c c' := by
  rcases Construction.updateNest_ok h with ⟨before, nest, hbefore, hnest, rfl⟩
  exact of_nest hbefore (hchange before nest hnest)

end Guards

namespace Construction

variable {c c' : Construction} {u : Unit}

/-- An evaluated expression writes just if it is a call of the write operation. -/
theorem evaluate_guards {e : Expr} (h : evaluate e c = .ok (u, c')) :
    Guards [] (Stmt.evaluate e).writeSteps c c' := by
  rw [Stmt.writeSteps_evaluate]
  unfold evaluate at h
  split at h
  next name args _ =>
    rw [Expr.isCallOf]
    cases operation_ok h with
    | read _ _ _ hbefore hread =>
        rw [if_neg (by decide)]
        exact .of_nest hbefore (LoopNest.writes_read hread)
    | write _ _ _ hbefore hwrite =>
        rw [if_pos (by decide)]
        exact .of_nest hbefore (LoopNest.writes_write hwrite)
    -- The other operations leave the nest alone.
    | lineBuffer _ hrun =>
        rw [if_neg (by decide)]
        exact .keeps (untouched_respected.lineBuffer _) hrun
    | dispatch _ hrun =>
        rw [if_neg (by decide)]
        exact .keeps (untouched_respected.dispatch _) hrun
  next hcall =>
    have hno : e.isCallOf WriteStream.callName = false := by
      cases e <;> first | rfl | exact absurd rfl (hcall _ _ _ _)
    rw [hno, if_neg (by simp)]
    split at h
    · exact .keeps (untouched_respected.pure _) h
    · exact .keeps (untouched_respected.lift _) h

theorem realize_guards {name : String} {types : List ScalarType} {bounds : List Interval}
    (h : realize name types bounds c = .ok (u, c')) : Guards [] [] c c' := by
  unfold realize at h
  split at h
  · exact .keeps (Leads.lift_bind fun _ _ => untouched_respected.addWire) h
  split at h
  · exact .of_updateNest (fun _ _ => LoopNest.writes_realize) h
  · exact .keeps (untouched_respected.lift _) h

/-- An outermost loop becomes a stage that writes under the conditions it keeps. -/
theorem loop_guards {name : String} {min extent : Expr} {kind : ForKind} {body : Stmt}
    {inner : Constructing Unit}
    (hinner : ∀ c u c', inner c = .ok (u, c') → Guards body.nests body.writeSteps c c')
    (h : loop name min extent body inner c = .ok (u, c')) :
    Guards [.loop name min extent kind body] body.writeSteps c c' := by
  rcases loop_ok h with ⟨n, n', hn, henter, hbody⟩ | ⟨hn, _, _, n', d, henter, hbody, hend⟩
  · constructor
    case inside =>
      intro m hm
      rcases Option.some.inj (hn.symm.trans hm) with rfl
      rcases (hinner _ _ _ hbody).inside n' rfl with ⟨⟨k, hk, hwrites⟩, hplans⟩
      exact ⟨⟨k, hk, (LoopNest.writes_enterLoop henter).trans hwrites⟩, hplans⟩
    case outside =>
      intro hm
      exact absurd (hn.symm.trans hm) (by simp)
  · rcases (hinner _ _ _ hbody).inside n' rfl with ⟨⟨k, hk, hwrites⟩, hplans⟩
    rcases addStage_ok (addStage_of_endNest hend hk) with
      ⟨hnest, params, plan, output, hfinish, hadded⟩
    rcases LoopNest.finish_ok hfinish with ⟨houtput, _, hplan⟩
    constructor
    case inside =>
      intro m hm
      exact absurd (hn.symm.trans hm) (by simp)
    case outside =>
      intro _
      refine ⟨hnest, [plan], by rw [hadded, hplans], .cons ?_ .nil⟩
      -- A nest begins without a write, and without conditions around it.
      rcases ((LoopNest.writes_enterLoop henter).trans hwrites).write with
        ⟨_, hnone, _⟩ | ⟨w, hw, _, _, hconj⟩
      · exact absurd (houtput.symm.trans hnone) (Option.some_ne_none output)
      · exact ⟨w, hw, (congrArg StagePlan.writeGuard hplan).trans hconj⟩

/-- The condition of a conditional is kept unless it contains a read. -/
theorem branch_guards {condition : Expr} {thenCase : Stmt} {hasElse : Bool}
    {inner : Constructing Unit}
    (hinner : ∀ c u c', inner c = .ok (u, c') → Guards thenCase.nests thenCase.writeSteps c c')
    (h : branch condition thenCase hasElse inner c = .ok (u, c')) (nests : List Stmt) :
    hasElse = false ∧
      Guards nests (thenCase.writeSteps.map (Step.under ⟨condition, thenCase⟩)) c c' := by
  rcases branch_ok h with ⟨⟨n, hn⟩, helse, hcase⟩
  refine ⟨helse, fun m hm => ?_, fun hm => absurd (hn.symm.trans hm) (by simp)⟩
  rcases hcase with ⟨hread, hbody⟩ | ⟨hread, d, hbody, rfl⟩
  · rcases (hinner _ _ _ hbody).inside m hm with ⟨⟨k, hk, hwrites⟩, hplans⟩
    exact ⟨⟨k, hk, hwrites.under_read (c := ⟨condition, thenCase⟩) hread⟩, hplans⟩
  · have hpushed : (c.nest.map fun n => n.pushGuard condition) = some (m.pushGuard condition) := by
      rw [hm, Option.map_some]
    rcases (hinner _ _ _ hbody).inside _ hpushed with ⟨⟨k, hk, hwrites⟩, hplans⟩
    exact ⟨⟨k.popGuard, congrArg (Option.map LoopNest.popGuard) hk,
      hwrites.under (c := ⟨condition, thenCase⟩) hread⟩, hplans⟩

mutual

/-- Reading a statement keeps the conditions of its writes. -/
theorem statement_guards : ∀ (s : Stmt) (c : Construction) (u : Unit) (c' : Construction),
    statement s c = .ok (u, c') → Guards s.nests s.writeSteps c c'
  | .producer name isProducer body, c, u, c', h => by
      rcases inProducer_ok h with ⟨producer, d, hbody, rfl⟩
      have hremembered : Guards [] [] c { c with producer } := .quiet rfl rfl
      have hforgotten : Guards [] [] d { d with producer := c.producer } := .quiet rfl rfl
      have hall := hremembered.append ((statement_guards body _ _ d hbody).append hforgotten)
      rw [List.append_nil, List.append_nil] at hall
      exact hall
  | .block stmts, c, u, c', h => by
      rw [Stmt.writeSteps_block]
      exact statements_guards stmts c u c' h
  | .loop name min extent kind body, c, u, c', h => by
      unfold statement at h
      split at h
      · exact absurd (lift_ok.mp h).1 (by simp [unsupported])
      · exact loop_guards (statement_guards body) h
  | .realize name types bounds body, c, u, c', h => by
      rcases bind_ok.mp h with ⟨_, d, hrealize, hbody⟩
      exact (realize_guards hrealize).append (statement_guards body d u c' hbody)
  | .provide name values args, c, u, c', h =>
      .of_updateNest (fun _ _ => LoopNest.writes_provide) h
  | .letIn name value body, c, u, c', h => by
      rcases bind_ok.mp h with ⟨_, d, hupdate, hbody⟩
      exact (Guards.of_updateNest (fun _ _ => LoopNest.writes_bind) hupdate).append
        (statement_guards body d u c' hbody)
  | .branch condition thenCase elseCase, c, u, c', h => by
      rcases branch_guards (statement_guards thenCase) h
        (Stmt.branch condition thenCase elseCase).nests with ⟨hnone, hthen⟩
      have hcase : elseCase = none :=
        Option.isNone_iff_eq_none.mp (Option.isSome_eq_false_iff.mp hnone)
      subst hcase
      rw [Stmt.writeSteps_branch]
      exact hthen
  | .evaluate value, c, u, c', h => evaluate_guards h
  | .assert _ _, c, u, c', h => absurd (lift_ok.mp h).1 (by simp [unsupported])
  | .store _ _ _, c, u, c', h => absurd (lift_ok.mp h).1 (by simp [unsupported])
  | .allocate _ _ _ _, c, u, c', h => absurd (lift_ok.mp h).1 (by simp [unsupported])
  | .free _, c, u, c', h => absurd (lift_ok.mp h).1 (by simp [unsupported])

theorem statements_guards : ∀ (ss : List Stmt) (c : Construction) (u : Unit) (c' : Construction),
    statements ss c = .ok (u, c') → Guards (Stmt.nestsOfList ss) (ss.flatMap Stmt.writeSteps) c c'
  | [], c, u, c', h => .keeps (untouched_respected.pure _) h
  | s :: rest, c, u, c', h => by
      rcases bind_ok.mp h with ⟨_, d, hs, hrest⟩
      exact (statement_guards s c _ d hs).append (statements_guards rest d u c' hrest)

end

end Construction

namespace Netlist

/-- The stages of a design write under the conditions that are kept. -/
theorem forall₂_writesUnder {k : Kernel} {n : Netlist} (h : ofKernel k = .ok n) :
    List.Forall₂ WritesUnder k.body.nests n.stagePlans := by
  rcases body_of_ofKernel h with ⟨d, _, c, hnest, hempty, hbody, rfl⟩
  rcases (Construction.statement_guards k.body d _ c hbody).outside hnest with
    ⟨_, plans, hadded, hall⟩
  rw [hadded, hempty, List.nil_append]
  exact hall

end Netlist

end StencilRtl
