import StencilRtl.Kernel.Builder
import StencilRtl.Proofs.LoopNest.Executions
import StencilRtl.Proofs.Netlist.Growth

/-!
# Loop Nests and Their Stages

Which loop nests a kernel's stages stand for, and when a stage does what its nest
does.

A kernel is read once, from front to back, and the nest around the current
statement is a value in the state: it collects the loops that are entered and the
actions that are met, and never forgets one. So a statement inside a nest only
adds to it what `Stmt.loops` and `Stmt.actions` say, and a statement outside adds
one stage for each of its outermost loops. `Reads` says both at once, which is
what the induction over statements needs, because a loop turns the second case
into the first.

Nothing in the reading looks at how the loops of a nest stand to each other. The
stage of a nest that is not perfect is built like any other, and by the theorem
about executions it does something else.

## Main definitions

* `Stmt.nests`: The outermost loops of a statement.
* `Translates`: A stage has the loops and actions of a nest.
* `Reads`: What reading a statement does to the construction.

## Theorems

* `statement_reads`: Reading a statement, by induction.
* `forall₂_translates`: The stages of a design are those of the kernel's nests.
* `executions_eq_iff_isPerfect`: A stage does what its nest does just if the nest
  is perfect.
-/

namespace StencilRtl

namespace Stmt

mutual

/-- The outermost loops of a statement, in reading order. -/
def nests : Stmt → List Stmt
  | .letIn _ _ body => body.nests
  | .producer _ _ body => body.nests
  | s@(.loop _ _ _ _ _) => [s]
  | .realize _ _ _ body => body.nests
  | .block stmts => nestsOfList stmts
  | .branch _ thenCase elseCase => thenCase.nests ++ nestsOfOption elseCase
  | .allocate _ _ _ body => body.nests
  | .provide _ _ _ => []
  | .assert _ _ => []
  | .evaluate _ => []
  | .store _ _ _ => []
  | .free _ => []

/-- The outermost loops of some statements, in reading order. -/
def nestsOfList : List Stmt → List Stmt
  | [] => []
  | s :: rest => s.nests ++ nestsOfList rest

/-- The outermost loops of an optional statement. -/
def nestsOfOption : Option Stmt → List Stmt
  | none => []
  | some s => s.nests

end

end Stmt

/-- A stage has the loops and the actions of a nest, and the loops run. -/
structure Translates (nest : Stmt) (plan : StagePlan) : Prop where
  bounded : nest.Bounded
  vars : plan.vars = nest.loops
  actions : plan.actions = nest.actions

namespace LoopNest

/-- A nest that has become another one by some loops and actions. -/
structure Grows (vars : List LoopVar) (actions : List Action) (n n' : LoopNest) : Prop where
  vars : n'.scan ++ n'.window = n.scan ++ n.window ++ vars
  actions : n'.actions = n.actions ++ actions

namespace Grows

/-- A nest whose loops and actions are the same. -/
theorem same {n n' : LoopNest} (hs : n'.scan = n.scan) (hw : n'.window = n.window)
    (ha : n'.actions = n.actions) : Grows [] [] n n' :=
  ⟨by rw [hs, hw, List.append_nil], by rw [ha, List.append_nil]⟩

theorem trans {v v' : List LoopVar} {a a' : List Action} {n m k : LoopNest}
    (h : Grows v a n m) (h' : Grows v' a' m k) : Grows (v ++ v') (a ++ a') n k :=
  ⟨by rw [h'.vars, h.vars, List.append_assoc], by rw [h'.actions, h.actions, List.append_assoc]⟩

end Grows

/-- A loop that is entered runs, and comes behind the loops around it. -/
theorem grows_enterLoop {n n' : LoopNest} {name : String} {min extent : Expr} {body : Stmt}
    (h : n.enterLoop name min extent body = .ok n') :
    Grows [.ofLoop name min extent] [] n n' ∧
      ∀ kind, (Node.stmt (.loop name min extent kind body)).Bounded := by
  rcases enterLoop_ok h with ⟨first, count, hmin, hextent, hfirst, hcount, hentered⟩
  have hvar : LoopVar.ofLoop name min extent = ⟨printName name, first.toNat, count.toNat⟩ := by
    simp only [LoopVar.ofLoop, hmin, hextent, Option.getD_some]
  refine ⟨?_, fun _ => ⟨⟨first, hmin, hfirst⟩, count, hextent, hcount⟩⟩
  -- There is no scan loop behind a window loop, so the two lists keep the reading order.
  rcases hentered with ⟨hwindow, rfl⟩ | rfl
  · exact ⟨by simp [hwindow, hvar], by simp⟩
  · exact ⟨by simp [hvar], by simp⟩

theorem grows_realize {n n' : LoopNest} {name : String} {types : List ScalarType}
    {bounds : List Interval} (h : n.realize name types bounds = .ok n') : Grows [] [] n n' := by
  rcases realize_ok h with ⟨_, _, _, rfl⟩
  exact .same rfl rfl rfl

theorem grows_provide {n n' : LoopNest} {name : String} {values args : List Expr}
    (h : n.provide name values args = .ok n') :
    Grows [] (values.map fun value => .provide (printName name) args value) n n' := by
  rcases provide_ok h with ⟨_, _, rfl, rfl⟩
  exact ⟨by simp, by simp⟩

theorem grows_bind {n n' : LoopNest} {name : String} {value : Expr}
    (h : n.bind name value = .ok n') : Grows [] [.letIn (printName name) value] n n' := by
  rcases bind_ok h with ⟨_, rfl⟩
  exact ⟨by simp, by simp⟩

theorem grows_read {n n' : LoopNest} {call : ReadStream} {shape : Shape}
    (h : n.read call shape = .ok n') : Grows [] [] n n' := by
  rcases read_ok h with ⟨_, rfl⟩ | ⟨_, rfl⟩
  · exact .same rfl rfl rfl
  · exact .same rfl rfl rfl

theorem grows_write {n n' : LoopNest} {call : WriteStream} {shape : Shape}
    (h : n.write call shape = .ok n') : Grows [] [] n n' := by
  rcases write_ok h with ⟨_, rfl⟩
  exact .same rfl rfl rfl

end LoopNest

/-- What reading some nodes does to the construction. Inside a nest their loops
    and actions are added to it. Outside of one a stage is added for each of the
    outermost loops among them. -/
structure Reads (nodes : List Node) (nests : List Stmt) (c c' : Construction) : Prop where
  inside : ∀ n, c.nest = some n →
    (∃ n', c'.nest = some n' ∧
      n.Grows (nodes.flatMap Node.loops) (nodes.flatMap Node.actions) n') ∧
    c'.netlist.stagePlans = c.netlist.stagePlans ∧ ∀ x ∈ nodes, x.Bounded
  outside : c.nest = none →
    c'.nest = none ∧ ∃ plans, c'.netlist.stagePlans = c.netlist.stagePlans ++ plans ∧
      List.Forall₂ Translates nests plans

namespace Reads

variable {c d c' : Construction} {ms ns : List Node} {p q : List Stmt}

theorem append (h : Reads ms p c d) (h' : Reads ns q d c') : Reads (ms ++ ns) (p ++ q) c c' := by
  constructor
  case inside =>
    intro n hn
    rcases h.inside n hn with ⟨⟨m, hm, hgrows⟩, hplans, hbounded⟩
    rcases h'.inside m hm with ⟨⟨k, hk, hgrows'⟩, hplans', hbounded'⟩
    refine ⟨⟨k, hk, ?_⟩, hplans'.trans hplans, fun x hx => ?_⟩
    · simpa only [List.flatMap_append] using hgrows.trans hgrows'
    · rcases List.mem_append.mp hx with hx | hx
      · exact hbounded x hx
      · exact hbounded' x hx
  -- Outside of a nest both leave finished stages, one after the other.
  case outside =>
    intro hn
    rcases h.outside hn with ⟨hd, plans, hplans, hall⟩
    rcases h'.outside hd with ⟨hc', plans', hplans', hall'⟩
    refine ⟨hc', plans ++ plans', ?_, List.rel_append hall hall'⟩
    rw [hplans', hplans, List.append_assoc]

/-- There is nothing to read in nodes without loops and actions. -/
theorem silent (h : ∀ x ∈ ns, x.loops = [] ∧ x.actions = [] ∧ x.Bounded) :
    Reads ns [] c c := by
  have hloops : ns.flatMap Node.loops = [] :=
    List.flatMap_eq_nil_iff.mpr fun x hx => (h x hx).1
  have hactions : ns.flatMap Node.actions = [] :=
    List.flatMap_eq_nil_iff.mpr fun x hx => (h x hx).2.1
  constructor
  case inside =>
    intro n hn
    refine ⟨⟨n, hn, ?_⟩, rfl, fun x hx => (h x hx).2.2⟩
    rw [hloops, hactions]
    exact .same rfl rfl rfl
  case outside =>
    intro hn
    exact ⟨hn, [], (List.append_nil _).symm, .nil⟩

theorem exprs {e : List Expr} : Reads (e.map Node.expr) [] c c := by
  refine silent fun x hx => ?_
  rcases List.mem_map.mp hx with ⟨e, _, rfl⟩
  exact ⟨rfl, rfl, trivial⟩

/-- The statement itself, before anything inside it. -/
theorem stmt {s : Stmt} (hloops : (Node.stmt s).loops = []) (hactions : (Node.stmt s).actions = [])
    (hbounded : (Node.stmt s).Bounded) : Reads [.stmt s] [] c c := by
  refine silent fun x hx => ?_
  rw [List.mem_singleton.mp hx]
  exact ⟨hloops, hactions, hbounded⟩

/-- What leaves the stages and the nest alone may happen before and behind. -/
theorem quiet (hnest : c'.nest = c.nest)
    (hplans : c'.netlist.stagePlans = c.netlist.stagePlans) : Reads [] [] c c' := by
  constructor
  case inside =>
    intro n hn
    exact ⟨⟨n, hnest.trans hn, .same rfl rfl rfl⟩, hplans, List.forall_mem_nil _⟩
  case outside =>
    intro hn
    exact ⟨hnest.trans hn, [], by rw [hplans, List.append_nil], .nil⟩

theorem keeps {α : Type} {m : Constructing α} {a : α} (hm : Construction.Keeps m)
    (h : m c = .ok (a, c')) : Reads [] [] c c' :=
  quiet (hm c a c' h).1 (hm c a c' h).2

/-- What the open nest grows by has been read. -/
theorem of_nest {before nest : LoopNest} (hbefore : c.nest = some before)
    (hgrows : before.Grows (ns.flatMap Node.loops) (ns.flatMap Node.actions) nest)
    (hbounded : ∀ x ∈ ns, x.Bounded) : Reads ns [] c { c with nest := some nest } := by
  constructor
  case inside =>
    intro n hn
    rcases Option.some.inj (hbefore.symm.trans hn) with rfl
    exact ⟨⟨nest, rfl, hgrows⟩, rfl, hbounded⟩
  case outside =>
    intro hn
    exact absurd (hbefore.symm.trans hn) (by simp)

/-- A change of the nest can only be asked for inside one. -/
theorem of_updateNest {change : LoopNest → Fallible LoopNest} {outside : Unsupported} {u : Unit}
    (hchange : ∀ n n', change n = .ok n' →
      n.Grows (ns.flatMap Node.loops) (ns.flatMap Node.actions) n' ∧ ∀ x ∈ ns, x.Bounded)
    (h : Construction.updateNest change outside c = .ok (u, c')) : Reads ns [] c c' := by
  rcases Construction.updateNest_ok h with ⟨before, nest, hbefore, hnest, rfl⟩
  rcases hchange before nest hnest with ⟨hgrows, hbounded⟩
  exact of_nest hbefore hgrows hbounded

end Reads

namespace Construction

variable {c c' : Construction} {u : Unit}

/-- A stream operation adds no loop and no action, and no stage. -/
theorem operation_reads {name : String} {args : List Expr}
    (h : operation name args c = .ok (u, c')) : Reads [] [] c c' := by
  cases operation_ok h with
  | read _ _ _ hbefore hread =>
      exact .of_nest hbefore (LoopNest.grows_read hread) (List.forall_mem_nil _)
  | write _ _ _ hbefore hwrite =>
      exact .of_nest hbefore (LoopNest.grows_write hwrite) (List.forall_mem_nil _)
  | lineBuffer _ hrun => exact .keeps (untouched_respected.lineBuffer _) hrun
  | dispatch _ hrun => exact .keeps (untouched_respected.dispatch _) hrun

/-- Evaluating an expression is a stream operation or nothing. -/
theorem evaluate_reads {e : Expr} (h : evaluate e c = .ok (u, c')) : Reads [] [] c c' := by
  unfold evaluate at h
  split at h
  · exact operation_reads h
  split at h
  · exact .keeps (untouched_respected.pure _) h
  · exact .keeps (untouched_respected.lift _) h

/-- Realizing a buffer is no loop and no action. -/
theorem realize_reads {name : String} {types : List ScalarType} {bounds : List Interval}
    (h : realize name types bounds c = .ok (u, c')) : Reads [] [] c c' := by
  unfold realize at h
  split at h
  · exact .keeps (Leads.lift_bind fun _ _ => untouched_respected.addWire) h
  split at h
  · exact .of_updateNest
      (fun _ _ hrealize => ⟨LoopNest.grows_realize hrealize, List.forall_mem_nil _⟩) h
  · exact .keeps (untouched_respected.lift _) h

/-- The nodes of a loop are the loop itself and what is inside it. -/
theorem nodes_loop (name : String) (min extent : Expr) (kind : ForKind) (body : Stmt) :
    (Stmt.loop name min extent kind body).nodes
      = [.stmt (.loop name min extent kind body)]
        ++ (([min, extent].flatMap Expr.nodes).map .expr ++ body.nodes) := by
  simp [Stmt.nodes, Stmt.exprNodes]

/-- A loop around which there is a nest becomes one of its loops. -/
theorem loop_reads_inside {name : String} {min extent : Expr} {kind : ForKind} {body : Stmt}
    {n n' : LoopNest} (hn : c.nest = some n) (henter : n.enterLoop name min extent body = .ok n')
    (hbody : Reads body.nodes body.nests { c with nest := some n' } c') :
    (∃ k, c'.nest = some k ∧ n.Grows (Stmt.loop name min extent kind body).loops
        (Stmt.loop name min extent kind body).actions k) ∧
      c'.netlist.stagePlans = c.netlist.stagePlans ∧
      (Stmt.loop name min extent kind body).Bounded := by
  rcases LoopNest.grows_enterLoop henter with ⟨hgrows, hbounded⟩
  -- What the loop does outside of a nest is not asked for here.
  have hloop : Reads [.stmt (.loop name min extent kind body)] [] c
      { c with nest := some n' } := by
    constructor
    case inside =>
      intro m hm
      rw [hn, Option.some.injEq] at hm
      rw [← hm]
      refine ⟨⟨n', rfl, hgrows⟩, rfl, fun x hx => ?_⟩
      rw [List.mem_singleton.mp hx]
      exact hbounded kind
    case outside =>
      intro hm
      rw [hn] at hm
      exact absurd hm (by simp)
  have hall := hloop.append
    ((Reads.exprs (e := [min, extent].flatMap Expr.nodes)).append hbody)
  rw [← nodes_loop] at hall
  exact hall.inside n hn

/-- A loop is entered, and a stage is added behind it if it was an outermost one. -/
theorem loop_reads {name : String} {min extent : Expr} {kind : ForKind} {body : Stmt}
    {inner : Constructing Unit}
    (hinner : ∀ c u c', inner c = .ok (u, c') → Reads body.nodes body.nests c c')
    (h : loop name min extent body inner c = .ok (u, c')) :
    Reads (Stmt.loop name min extent kind body).nodes [.loop name min extent kind body] c c' := by
  rcases loop_ok h with ⟨n, n', hn, henter, hbody⟩ | ⟨hn, _, _, n', d, henter, hbody, hend⟩
  · constructor
    case inside =>
      intro m hm
      rcases Option.some.inj (hn.symm.trans hm) with rfl
      exact loop_reads_inside hn henter (hinner _ _ _ hbody)
    case outside =>
      intro hm
      exact absurd (hn.symm.trans hm) (by simp)
  · -- The nest begins empty, as if the loop stood inside an empty one.
    rcases loop_reads_inside (c := { c with nest := some _ }) rfl henter (hinner _ _ _ hbody) with
      ⟨⟨k, hk, hgrows⟩, hplans, hbounded⟩
    rcases addStage_ok (addStage_of_endNest hend hk) with
      ⟨hnest, params, plan, output, hfinish, hadded⟩
    rcases LoopNest.finish_ok hfinish with ⟨_, _, hplan⟩
    constructor
    case inside =>
      intro m hm
      exact absurd (hn.symm.trans hm) (by simp)
    case outside =>
      intro _
      refine ⟨hnest, [plan], by rw [hadded, hplans], .cons ⟨hbounded, ?_, ?_⟩ .nil⟩
      · rw [hplan]
        exact hgrows.vars
      · rw [hplan]
        exact hgrows.actions

/-- A conditional has no other case, and its condition stays outside of the nest's
    loops and actions. -/
theorem branch_reads {condition : Expr} {thenCase : Stmt} {hasElse : Bool}
    {inner : Constructing Unit}
    (hinner : ∀ c u c', inner c = .ok (u, c') → Reads thenCase.nodes thenCase.nests c c')
    (h : branch condition thenCase hasElse inner c = .ok (u, c')) :
    hasElse = false ∧ Reads thenCase.nodes thenCase.nests c c' := by
  rcases branch_ok h with ⟨⟨n, hn⟩, helse, ⟨_, hbody⟩ | ⟨_, d, hbody, rfl⟩⟩
  · exact ⟨helse, hinner _ _ _ hbody⟩
  refine ⟨helse, ?_⟩
  constructor
  case inside =>
    intro m hm
    -- The guard is on top of the nest while the case is read, and is no loop and no action.
    have hpushed : (c.nest.map fun n => n.pushGuard condition) = some (m.pushGuard condition) := by
      rw [hm, Option.map_some]
    rcases (hinner _ _ _ hbody).inside _ hpushed with ⟨⟨k, hk, hgrows⟩, hplans, hbounded⟩
    exact ⟨
      ⟨k.popGuard, congrArg (Option.map LoopNest.popGuard) hk, ⟨hgrows.vars, hgrows.actions⟩⟩,
      hplans, hbounded⟩
  case outside =>
    intro hm
    exact absurd (hn.symm.trans hm) (by simp)

mutual

/-- Reading a statement adds what its flattened form says. -/
theorem statement_reads : ∀ (s : Stmt) (c : Construction) (u : Unit) (c' : Construction),
    statement s c = .ok (u, c') → Reads s.nodes s.nests c c'
  | .producer name isProducer body, c, u, c', h => by
      rcases inProducer_ok h with ⟨producer, d, hbody, rfl⟩
      -- Neither remembering the producer nor forgetting it again reads anything.
      have hremembered : Reads [] [] c { c with producer } := .quiet rfl rfl
      have hforgotten : Reads [] [] d { d with producer := c.producer } := .quiet rfl rfl
      have hall := hremembered.append ((statement_reads body _ _ d hbody).append hforgotten)
      rw [List.append_nil, List.append_nil] at hall
      exact Reads.append (p := []) (.stmt (s := .producer name isProducer body) rfl rfl trivial)
        hall
  | .block stmts, c, u, c', h => by
      have hstmts := statements_reads stmts c u c' h
      exact Reads.append (p := []) (.stmt (s := .block stmts) rfl rfl trivial) hstmts
  | .loop name min extent kind body, c, u, c', h => by
      unfold statement at h
      split at h
      · exact absurd (lift_ok.mp h).1 (by simp [unsupported])
      · exact loop_reads (statement_reads body) h
  | .realize name types bounds body, c, u, c', h => by
      rcases bind_ok.mp h with ⟨_, d, hrealize, hbody⟩
      have hbody := statement_reads body d u c' hbody
      have hrest := (realize_reads hrealize).append hbody
      exact Reads.append (p := []) (.stmt (s := .realize name types bounds body) rfl rfl trivial)
        hrest
  | .provide name values args, c, u, c', h => by
      have hstore : Reads [.stmt (.provide name values args)] [] c c' := by
        refine .of_updateNest (fun n n' hprovide => ⟨?_, fun x hx => ?_⟩) h
        · simpa [Node.loops, Node.actions] using LoopNest.grows_provide hprovide
        · rw [List.mem_singleton.mp hx]
          trivial
      have hexprs := hstore.append (Reads.exprs (e := Expr.nodesOfList values ++
        Expr.nodesOfList args))
      rw [List.map_append] at hexprs
      exact hexprs
  | .letIn name value body, c, u, c', h => by
      rcases bind_ok.mp h with ⟨_, d, hupdate, hbody⟩
      have hbind : Reads [.stmt (.letIn name value body)] [] c d := by
        refine .of_updateNest (fun n n' hbind => ⟨?_, fun x hx => ?_⟩) hupdate
        · simpa [Node.loops, Node.actions] using LoopNest.grows_bind hbind
        · rw [List.mem_singleton.mp hx]
          trivial
      exact hbind.append ((Reads.exprs (e := value.nodes)).append
        (statement_reads body d u c' hbody))
  | .branch condition thenCase elseCase, c, u, c', h => by
      -- A branch with another case is refused, so that the flattened form has no such case either.
      rcases branch_reads (statement_reads thenCase) h with ⟨hnone, hthen⟩
      have hcase : elseCase = none :=
        Option.isNone_iff_eq_none.mp (Option.isSome_eq_false_iff.mp hnone)
      rw [hcase]
      have hall := (Reads.exprs (e := condition.nodes)).append hthen
      have hstmt := Reads.append (p := [])
        (.stmt (s := .branch condition thenCase none) rfl rfl trivial) hall
      simpa [Stmt.nodes, Stmt.nests, Stmt.nodesOfOption, Stmt.nestsOfOption, Stmt.exprNodes]
        using hstmt
  | .evaluate value, c, u, c', h => by
      have hvalue := (evaluate_reads h).append (Reads.exprs (e := value.nodes))
      exact Reads.append (p := []) (.stmt (s := .evaluate value) rfl rfl trivial) hvalue
  -- These are not among the statements that are read.
  | .assert _ _, c, u, c', h => absurd (lift_ok.mp h).1 (by simp [unsupported])
  | .store _ _ _, c, u, c', h => absurd (lift_ok.mp h).1 (by simp [unsupported])
  | .allocate _ _ _ _, c, u, c', h => absurd (lift_ok.mp h).1 (by simp [unsupported])
  | .free _, c, u, c', h => absurd (lift_ok.mp h).1 (by simp [unsupported])

theorem statements_reads : ∀ (ss : List Stmt) (c : Construction) (u : Unit) (c' : Construction),
    statements ss c = .ok (u, c') → Reads (Stmt.nodesOfList ss) (Stmt.nestsOfList ss) c c'
  | [], c, u, c', h => by
      exact .keeps (untouched_respected.pure _) h
  | s :: rest, c, u, c', h => by
      rcases bind_ok.mp h with ⟨_, d, hs, hrest⟩
      exact (statement_reads s c _ d hs).append (statements_reads rest d u c' hrest)

end

end Construction

namespace Netlist

/-- The body of a kernel is read outside of all nests, and there are no stages before it. -/
theorem body_of_ofKernel {k : Kernel} {n : Netlist} (h : ofKernel k = .ok n) :
    ∃ d u c, d.nest = none ∧ d.netlist.stagePlans = [] ∧
      Construction.statement k.body d = .ok (u, c) ∧ n = c.netlist := by
  rcases ofKernel_ok h with ⟨bus, slave, c, hbus, hkernel, _, rfl, _⟩
  rcases bind_ok.mp hkernel with ⟨_, d, hargs, hbody⟩
  have hkeeps : Construction.Keeps (k.args.forM Construction.addArgument) :=
    Construction.untouched_respected.forM Construction.untouched_respected.addArgument
  rcases hkeeps _ _ _ hargs with ⟨hnest, hplans⟩
  exact ⟨d, _, c, hnest, hplans.trans (Construction.addBus_ok hbus).2.2.1, hbody, rfl⟩

/-- The stages of a design are those of the kernel's nests, in order. -/
theorem forall₂_translates {k : Kernel} {n : Netlist} (h : ofKernel k = .ok n) :
    List.Forall₂ Translates k.body.nests n.stagePlans := by
  rcases body_of_ofKernel h with ⟨d, _, c, hnest, hempty, hbody, rfl⟩
  rcases (Construction.statement_reads k.body d _ c hbody).outside hnest with
    ⟨_, plans, hadded, hall⟩
  rw [hadded, hempty, List.nil_append]
  exact hall

end Netlist

/-- A stage does what its nest does just if every action of the nest stands inside
    all of its loops. Nests are accepted whether or not that is so. -/
theorem executions_eq_iff_isPerfect (ev : Valuation) (k : Kernel) (n : Netlist)
    (h : Netlist.ofKernel k = .ok n) :
    List.Forall₂ (fun nest plan => Translates nest plan ∧
        (nest.BranchFree → (nest.executions ev [] = plan.executions ↔ nest.IsPerfect)))
      k.body.nests n.stagePlans := by
  refine (Netlist.forall₂_translates h).imp fun nest plan htranslates =>
    ⟨htranslates, fun hbranch => ?_⟩
  rw [StagePlan.executions, htranslates.vars, htranslates.actions]
  exact Stmt.executions_eq_walk_iff ev htranslates.bounded hbranch

/-- Adds one to every element of a row of two. -/
def increments : Kernel :=
  ⟨"inc", [.stream "in.stencil.stream" (.uint 8) [1] [2] false,
    .stream "out.stencil.stream" (.uint 8) [1] [2] true],
    .forLoop "x" 0 2 (.realizeOver "out.stencil" (.uint 8) [1] (.block [
      .readStream "in.stencil.stream" "in.stencil" none,
      .provideOne "out.stencil"
        (.binary .add (.stencil "in.stencil" (.uint 8) [.ofInt 0]) (.ofWord 8 1)) [.ofInt 0],
      .writeStream "out.stencil.stream" "out.stencil" []]))⟩

theorem executions_eq_iff_isPerfect_increments :
    ∃ n, Netlist.ofKernel increments = .ok n ∧
      List.Forall₂ (fun nest plan => Translates nest plan ∧
          (nest.BranchFree →
            (nest.executions .ofConstants [] = plan.executions ↔ nest.IsPerfect)))
        increments.body.nests n.stagePlans := by
  have haccepted : (Netlist.ofKernel increments).toBool = true := by decide +kernel
  rcases Fallible.exists_ok haccepted with ⟨n, hn⟩
  exact ⟨n, hn, executions_eq_iff_isPerfect .ofConstants increments n hn⟩

/-- Sums the two elements of each window, which it sets to zero before the inner
    loop. -/
def pairSums : Kernel :=
  ⟨"sums", [.stream "in.stencil.stream" (.uint 8) [2] [4] false,
    .stream "out.stencil.stream" (.uint 8) [1] [2] true],
    .forLoop "x" 0 2 (.realizeOver "out.stencil" (.uint 8) [1] (.block [
      .readStream "in.stencil.stream" "in.stencil" none,
      .provideOne "out.stencil" (.ofWord 8 0) [.ofInt 0],
      .forLoop "r" 0 2 (.provideOne "out.stencil"
        (.binary .add (.stencil "out.stencil" (.uint 8) [.ofInt 0])
          (.stencil "in.stencil" (.uint 8) [.index "r"])) [.ofInt 0]),
      .writeStream "out.stencil.stream" "out.stencil" []]))⟩

/-- A sum over an inner loop is accepted, and its stage sets it to zero before
    every element. -/
theorem executions_pairSums_ne :
    pairSums.body.BranchFree ∧ pairSums.body.nests = [pairSums.body] ∧
      ∃ n plan, Netlist.ofKernel pairSums = .ok n ∧ n.stagePlans = [plan] ∧
        ∀ ev : Valuation, pairSums.body.executions ev [] ≠ plan.executions := by
  have hbranch : pairSums.body.BranchFree := by decide
  have hperfect : ¬ pairSums.body.IsPerfect := by decide
  refine ⟨hbranch, rfl, ?_⟩
  have haccepted : (Netlist.ofKernel pairSums).toBool = true := by decide +kernel
  rcases Fallible.exists_ok haccepted with ⟨n, hn⟩
  have hall : List.Forall₂ Translates [pairSums.body] n.stagePlans :=
    Netlist.forall₂_translates hn
  -- There is one nest, so there is one stage.
  generalize hplans : n.stagePlans = plans at hall
  cases hall with
  | @cons _ plan _ _ htranslates hrest =>
      cases hrest with
      | nil =>
          refine ⟨n, plan, hn, hplans, fun ev heq => hperfect ?_⟩
          rw [StagePlan.executions, htranslates.vars, htranslates.actions] at heq
          exact (Stmt.executions_eq_walk_iff ev htranslates.bounded hbranch).mp heq

end StencilRtl
