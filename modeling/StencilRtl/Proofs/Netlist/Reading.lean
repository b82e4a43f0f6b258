import StencilRtl.Proofs.LoopNest.Steps
import StencilRtl.Proofs.Netlist.Steps

/-!
# Reading a Statement

A statement is read once from front to back, for any question one may ask of it.

Most of the ways through a statement only say what is read in which order. They remember
the producer, let the nest around the statement grow by loops and actions, and otherwise
leave the work to the stream operations and to the end of a nest. So whatever is asked of
a whole statement is answered for these, and `Followed` collects the answers. What becomes
of the design is nowhere looked at here.

Of a nest only the streams it reads and writes are told apart. It begins without any, and
nothing but a read or a write gives it one, so every other change of a nest keeps them.

The answer may depend on what was read. Of a statement that is told by the calls it
evaluates, in reading order, so the relation that is asked for has a list of calls, and
reading one thing after the other puts the lists together.

## Main definitions

* `Stmt.operations`: The calls a statement evaluates.
* `LoopNest.SameStreams`: Two nests read and write the same streams.
* `Construction.Followed`: A relation that all parts of reading a statement respect.

## Theorems

* `Stmt.operations_block` and the like: The calls of a statement are those of its parts.
* `LoopNest.sameStreams_enterLoop` and the like: What keeps the streams of a nest.
* `Followed.statement`: Reading a whole statement.
* `Respected.followed`: Questions for which little of the nest matters.
-/

namespace StencilRtl

/-- The call that is evaluated at a node, with its operands. -/
def Node.operation? : Node → Option (String × List Expr)
  | .stmt (.evaluate (.call _ name args _)) => some (name, args)
  | _ => none

namespace Stmt

/-- The calls a statement evaluates, with their operands, in reading order. -/
def operations (s : Stmt) : List (String × List Expr) := s.nodes.filterMap Node.operation?

/-- Nothing is evaluated inside an expression. -/
theorem filterMap_exprs (es : List Expr) : (es.map Node.expr).filterMap Node.operation? = [] := by
  rw [List.filterMap_map]
  exact List.filterMap_eq_nil_iff.mpr fun _ _ => rfl

theorem operations_producer (name : String) (isProducer : Bool) (body : Stmt) :
    (producer name isProducer body).operations = body.operations := by
  rw [operations, nodes, List.filterMap_cons_none rfl, operations]

theorem operations_loop (name : String) (min extent : Expr) (kind : ForKind) (body : Stmt) :
    (loop name min extent kind body).operations = body.operations := by
  rw [operations, nodes, List.filterMap_cons_none rfl, List.filterMap_append,
    List.filterMap_append, exprNodes, exprNodes, filterMap_exprs, filterMap_exprs]
  rfl

theorem operations_realize (name : String) (types : List ScalarType) (bounds : List Interval)
    (body : Stmt) : (realize name types bounds body).operations = body.operations := by
  rw [operations, nodes, List.filterMap_cons_none rfl, operations]

theorem operations_letIn (name : String) (value : Expr) (body : Stmt) :
    (letIn name value body).operations = body.operations := by
  rw [operations, nodes, List.filterMap_cons_none rfl, List.filterMap_append, exprNodes,
    filterMap_exprs]
  rfl

theorem operations_provide (name : String) (values args : List Expr) :
    (provide name values args).operations = [] := by
  rw [operations, nodes, List.filterMap_cons_none rfl, List.filterMap_append, exprsNodes,
    exprsNodes, filterMap_exprs, filterMap_exprs]
  rfl

theorem operations_branch (condition : Expr) (thenCase : Stmt) :
    (branch condition thenCase none).operations = thenCase.operations := by
  rw [operations, nodes, List.filterMap_cons_none rfl, List.filterMap_append,
    List.filterMap_append, exprNodes, filterMap_exprs, nodesOfOption]
  exact List.append_nil _

theorem filterMap_nodesOfList (stmts : List Stmt) :
    (nodesOfList stmts).filterMap Node.operation? = stmts.flatMap operations := by
  induction stmts with
  | nil => rfl
  | cons s rest ih => rw [nodesOfList, List.filterMap_append, ih, List.flatMap_cons, operations]

theorem operations_block (stmts : List Stmt) :
    (block stmts).operations = stmts.flatMap operations := by
  rw [operations, nodes, List.filterMap_cons_none rfl, filterMap_nodesOfList]

theorem operations_call (type : ScalarType) (name : String) (args : List Expr)
    (callType : CallType) :
    (evaluate (.call type name args callType)).operations = [(name, args)] := by
  have hcall : Node.operation? (.stmt (.evaluate (.call type name args callType)))
      = some (name, args) := rfl
  rw [operations, nodes, List.filterMap_cons_some hcall, exprNodes, filterMap_exprs]

theorem operations_evaluate {e : Expr}
    (h : ∀ type name args callType, e ≠ .call type name args callType) :
    (evaluate e).operations = [] := by
  have hnone : Node.operation? (.stmt (.evaluate e)) = none := by
    cases e <;> first | rfl | exact absurd rfl (h _ _ _ _)
  rw [operations, nodes, List.filterMap_cons_none hnone, exprNodes, filterMap_exprs]

end Stmt

namespace LoopNest

variable {n n' : LoopNest}

/-- Two nests that read the same streams and write the same one. -/
structure SameStreams (n n' : LoopNest) : Prop where
  inputs : n'.inputs = n.inputs
  output : n'.output = n.output

theorem sameStreams_enterLoop {name : String} {min extent : Expr} {body : Stmt}
    (h : n.enterLoop name min extent body = .ok n') : n.SameStreams n' := by
  rcases enterLoop_ok h with ⟨_, _, _, _, _, _, ⟨_, rfl⟩ | rfl⟩
  · exact ⟨rfl, rfl⟩
  · exact ⟨rfl, rfl⟩

theorem sameStreams_realize {name : String} {types : List ScalarType} {bounds : List Interval}
    (h : n.realize name types bounds = .ok n') : n.SameStreams n' := by
  rcases realize_ok h with ⟨_, _, _, rfl⟩
  exact ⟨rfl, rfl⟩

theorem sameStreams_provide {name : String} {values args : List Expr}
    (h : n.provide name values args = .ok n') : n.SameStreams n' := by
  rcases provide_ok h with ⟨_, _, _, rfl⟩
  exact ⟨rfl, rfl⟩

theorem sameStreams_bind {name : String} {value : Expr} (h : n.bind name value = .ok n') :
    n.SameStreams n' := by
  rcases bind_ok h with ⟨_, rfl⟩
  exact ⟨rfl, rfl⟩

theorem output_read {call : ReadStream} {shape : Shape} (h : n.read call shape = .ok n') :
    n'.output = n.output := by
  rcases read_ok h with ⟨_, rfl⟩ | ⟨_, rfl⟩ <;> rfl

/-- A read adds the stream that is read, unless it has been read before. -/
theorem inputs_read {call : ReadStream} {shape : Shape} (h : n.read call shape = .ok n') :
    ∀ i ∈ n'.inputs, i ∈ n.inputs ∨ i = ⟨call.stream, call.stencil, shape⟩ := by
  rcases read_ok h with ⟨_, rfl⟩ | ⟨_, rfl⟩
  · exact fun i hi => .inl hi
  · exact fun i hi => (List.mem_append.mp hi).imp_right List.mem_singleton.mp

/-- A nest that is finished has passed its check and reads and is given what its plan says. -/
theorem proper_of_finish {nest : LoopNest} {params : List (String × Shape)} {plan : StagePlan}
    {output : NestOutput} (h : nest.finish params = .ok (plan, output)) :
    plan.validate = .ok () ∧ plan.inputs = nest.inputs ∧ plan.params = params := by
  rcases finish_ok h with ⟨_, hvalid, rfl⟩
  exact ⟨hvalid, rfl, rfl⟩

end LoopNest

namespace Construction

open Leads

/-- A relation that all parts of reading a statement respect, together with the calls that
    were read. -/
structure Followed (R : List (String × List Expr) → Construction → Construction → Prop) :
    Prop where
  refl : ∀ c, R [] c c
  trans : ∀ {ops ops' c d e}, R ops c d → R ops' d e → R (ops ++ ops') c e
  producer : ∀ c producer, R [] c { c with producer }
  begins : ∀ {c producer free nest}, c.nest = none →
    (LoopNest.empty producer free).SameStreams nest → R [] c { c with nest := some nest }
  continues : ∀ {c before nest}, c.nest = some before → before.SameStreams nest →
    R [] c { c with nest := some nest }
  ends : Leads (R []) endNest
  realized : ∀ {name types bounds shape}, realizedShape name types bounds = .ok shape →
    Leads (R []) (addWire (wireName (printName name)) shape)
  operation : ∀ name args, Leads (R [(name, args)]) (operation name args)

namespace Followed

variable {R : List (String × List Expr) → Construction → Construction → Prop} (hR : Followed R)
  {ops : List (String × List Expr)}

include hR

theorem chains : Chains (R []) := ⟨hR.refl, hR.trans⟩

/-- Reading may begin with something that evaluates no call. -/
theorem before {α β : Type} {m : Constructing α} {f : α → Constructing β} (hm : Leads (R []) m)
    (hf : ∀ a, Leads (R ops) (f a)) : Leads (R ops) (m >>= f) := by
  intro c b c' h
  rcases bind_ok.mp h with ⟨a, d, ha, hb⟩
  exact hR.trans (hm c a d ha) (hf a d b c' hb)

/-- It may end with something that evaluates no call. -/
theorem behind {α β : Type} {m : Constructing α} {f : α → Constructing β} (hm : Leads (R ops) m)
    (hf : ∀ a, Leads (R []) (f a)) : Leads (R ops) (m >>= f) := by
  intro c b c' h
  rcases bind_ok.mp h with ⟨a, d, ha, hb⟩
  have hall := hR.trans (hm c a d ha) (hf a d b c' hb)
  rwa [List.append_nil] at hall

theorem keepsStreams {change : LoopNest → Fallible LoopNest} {outside : Unsupported}
    (hchange : ∀ before nest, change before = .ok nest → before.SameStreams nest) :
    Leads (R []) (updateNest change outside) :=
  Leads.updateNest fun _ before nest hbefore hnest =>
    hR.continues hbefore (hchange before nest hnest)

theorem evaluate (e : Expr) :
    Leads (R (Stmt.evaluate e).operations) (Construction.evaluate e) := by
  unfold Construction.evaluate
  split
  · rw [Stmt.operations_call]
    exact hR.operation _ _
  next hno =>
  rw [Stmt.operations_evaluate fun type name args callType heq => hno type name args callType heq]
  split
  · exact hR.chains.pure _
  · exact hR.chains.lift _

theorem realize (name : String) (types : List ScalarType) (bounds : List Interval) :
    Leads (R []) (Construction.realize name types bounds) := by
  unfold Construction.realize
  split
  · exact lift_bind fun _ hshape => hR.realized hshape
  split
  · exact hR.keepsStreams fun _ _ => LoopNest.sameStreams_realize
  · exact hR.chains.lift _

variable {inner : Constructing Unit} (hinner : Leads (R ops) inner)

include hinner

theorem inProducer (name : String) : Leads (R ops) (Construction.inProducer name inner) := by
  intro c u c' h
  rcases inProducer_ok h with ⟨producer, d, hbody, rfl⟩
  have hall := hR.trans (hR.producer c producer) (hinner _ _ d hbody)
  have hback := hR.trans hall (hR.producer d c.producer)
  rwa [List.append_nil] at hback

theorem loop (name : String) (min extent : Expr) (body : Stmt) :
    Leads (R ops) (Construction.loop name min extent body inner) := by
  intro c u c' h
  rcases loop_ok h with ⟨before, nest, hbefore, henter, hbody⟩ |
    ⟨hbefore, _, _, nest, d, henter, hbody, hend⟩
  · exact hR.trans (hR.continues hbefore (LoopNest.sameStreams_enterLoop henter))
      (hinner _ _ _ hbody)
  · have hall := hR.trans (hinner _ _ d hbody) (hR.ends d u c' hend)
    rw [List.append_nil] at hall
    exact hR.trans (hR.begins hbefore (LoopNest.sameStreams_enterLoop henter)) hall

theorem branch (condition : Expr) (thenCase : Stmt) :
    Leads (R ops) (Construction.branch condition thenCase false inner) := by
  -- Guards are put on the nest and taken off it, neither of which reads a stream.
  have hnest : ∀ (f : LoopNest → LoopNest), (∀ n : LoopNest, n.SameStreams (f n)) →
      ∀ c : Construction, R [] c { c with nest := c.nest.map f } := by
    intro f hf c
    cases hc : c.nest with
    | none =>
        rw [Option.map_none, ← hc]
        exact hR.refl c
    | some n => exact hR.continues hc (hf n)
  intro c u c' h
  rcases branch_ok h with ⟨_, _, ⟨_, hbody⟩ | ⟨_, d, hbody, rfl⟩⟩
  · exact hinner c u c' hbody
  · have hall := hR.trans (hnest (·.pushGuard condition) (fun _ => ⟨rfl, rfl⟩) c)
      (hinner _ _ d hbody)
    have hback := hR.trans hall (hnest LoopNest.popGuard (fun _ => ⟨rfl, rfl⟩) d)
    rwa [List.append_nil] at hback

end Followed

mutual

/-- What holds of the parts of reading a statement holds of reading it. -/
theorem Followed.statement
    {R : List (String × List Expr) → Construction → Construction → Prop} (hR : Followed R) :
    ∀ s : Stmt, Leads (R s.operations) (statement s)
  | .producer name isProducer body => by
      rw [Stmt.operations_producer]
      exact hR.inProducer (hR.statement body) name
  | .block stmts => by
      rw [Stmt.operations_block]
      exact hR.statements stmts
  | .loop name min extent kind body => by
      rw [Stmt.operations_loop]
      unfold Construction.statement
      split
      · exact fails fun _ => by simp [unsupported]
      · exact hR.loop (hR.statement body) name min extent body
  | .realize name types bounds body => by
      rw [Stmt.operations_realize]
      exact hR.before (hR.realize name types bounds) fun _ => hR.statement body
  | .provide name values args => by
      rw [Stmt.operations_provide]
      exact hR.keepsStreams fun _ _ => LoopNest.sameStreams_provide
  | .letIn name value body => by
      rw [Stmt.operations_letIn]
      exact hR.before (hR.keepsStreams fun _ _ => LoopNest.sameStreams_bind) fun _ => hR.statement body
  | .branch condition thenCase none => by
      rw [Stmt.operations_branch]
      exact hR.branch (hR.statement thenCase) condition thenCase
  | .branch condition thenCase (some other) => by
      -- A conditional with an else branch is refused.
      refine get_bind fun c => ?_
      rw [if_pos (by simp)]
      exact fails fun _ => by simp [unsupported]
  | .evaluate value => hR.evaluate value
  | .assert _ _ => fails fun _ => by simp [unsupported]
  | .store _ _ _ => fails fun _ => by simp [unsupported]
  | .allocate _ _ _ _ => fails fun _ => by simp [unsupported]
  | .free _ => fails fun _ => by simp [unsupported]

theorem Followed.statements
    {R : List (String × List Expr) → Construction → Construction → Prop} (hR : Followed R) :
    ∀ ss : List Stmt, Leads (R (ss.flatMap Stmt.operations)) (statements ss)
  | [] => hR.chains.pure _
  | s :: rest => by
      intro c u c' h
      rcases bind_ok.mp h with ⟨_, d, hs, hrest⟩
      exact hR.trans (hR.statement s c _ d hs) (hR.statements rest d u c' hrest)

end

/-- What the primitive steps respect is respected by whatever is read, if of the nest nothing
    matters to it but that it reads streams with wires, and if a nest may become a stage. -/
theorem Respected.followed {R : Construction → Construction → Prop} (hR : Respected R)
    (hnest : ∀ {c : Construction} {nest : LoopNest},
      (∀ i ∈ nest.inputs, (∃ before ∈ c.nest, i ∈ before.inputs) ∨
        c.netlist.wire? (wireName i.port) = some i.shape ∧ i.shape.isStream = true) →
      R c { c with nest := some nest })
    (hproducer : ∀ c producer, R c { c with producer })
    (hstage : ∀ {c nest params plan output stage n index}, c.nest = some nest →
      parameters c.netlist nest nest.free = .ok params → nest.finish params = .ok (plan, output) →
      stageComponent plan = .ok stage → c.netlist.addComponent stage = .ok (n, index) →
      R c { c with netlist := n, nest := none }) : Followed fun _ => R where
  refl := hR.refl
  trans := hR.trans
  producer := hproducer
  -- A nest that begins reads no stream yet, and later steps keep the streams of the nest before.
  begins _ hsame := hnest fun i hi => by
    rw [hsame.inputs] at hi
    exact absurd hi List.not_mem_nil
  continues hbefore hsame := hnest fun i hi => by
    rw [hsame.inputs] at hi
    exact .inl ⟨_, hbefore, hi⟩
  ends := by
    intro c u c' h
    rcases endNest_ok h with ⟨_, rfl⟩ | ⟨nest, hopen, hadd⟩
    · exact hR.refl c'
    · rcases hR.addStage_behind hadd with
        ⟨params, plan, output, stage, n, index, hparams, hfinish, hplan, hcomponent, hbehind⟩
      exact hR.trans (hstage hopen hparams hfinish hplan hcomponent) hbehind
  realized _ := hR.addWire
  operation name args c u c' h := by
    cases operation_ok h with
    -- A stream that is read for the first time has a wire, and the others have been read before.
    | read _ hwire hstream hbefore hread =>
        refine hnest fun i hi => (LoopNest.inputs_read hread i hi).imp (fun hi => ⟨_, hbefore, hi⟩) ?_
        rintro rfl
        exact ⟨hwire, hstream⟩
    | write _ _ _ hbefore hwrite =>
        rcases LoopNest.write_ok hwrite with ⟨_, rfl⟩
        exact hnest fun i hi => .inl ⟨_, hbefore, hi⟩
    | lineBuffer _ hrun => exact hR.lineBuffer _ c () c' hrun
    | dispatch _ hrun => exact hR.dispatch _ c () c' hrun

/-- A kernel is read argument by argument, and then its body is. -/
theorem Respected.kernel {R : Construction → Construction → Prop} (hR : Respected R)
    (hbody : Followed fun _ => R) (k : Kernel) : Leads R (kernel k) :=
  hR.bind (hR.forM hR.addArgument) fun _ => hbody.statement k.body

end Construction

end StencilRtl
