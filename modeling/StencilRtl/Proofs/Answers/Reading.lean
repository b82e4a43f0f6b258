import StencilRtl.Proofs.Answers.Construction

/-!
# Reading That Answers

From the statements of a moderate kernel to a design.

A statement hands everything it contains on to the operations: constants to loops, bounds to
stencils, operands to streams, expressions to the nest. That all of these are moderate is one
fact about the nodes of the statement, so it is taken apart along the statement, and the
construction stays sturdy from one statement to the next. What a nest has gathered becomes a
stage when its outermost loop ends.

## Theorems

* `Construction.answers_lineBuffer`, `Construction.answers_dispatch`,
  `Construction.answers_addStage`: Components of moderate operations.
* `Construction.answers_statement`: Reading a moderate statement answers.
-/

namespace StencilRtl

open Fallible

namespace Construction

variable {last room : Nat}

/-! ### Streams -/

theorem answers_lineBuffer {call : LineBufferCall} (hpos : ∀ extent ∈ call.storeExtents, 0 < extent)
    (himage : call.storeExtents.prod < Word.limit) :
    Answering (Sturdy last room) (lineBuffer call) fun _ => Sturdy last room := by
  refine (answers_streamShape _).bind_and fun input hinput => (answers_streamShape _).bind_and
    fun output houtput => ?_
  split
  · exact fun _ _ => trivial
  have hkind : (ComponentKind.lineBuffer call.storeExtents).Small := ⟨hpos, himage⟩
  refine answers_withPorts hkind hinput.1 houtput.1 fun buffer hbuffer =>
    answers_addComponent hbuffer fun index hlt =>
      (answers_connect (Nat.lt_succ_self _) (.top _)).bind fun _ => ?_
  exact answers_forget hlt (answers_addQueued houtput.1 houtput.2 (Nat.lt_succ_self _))

/-- Every consumer has a queue as deep as it asks for. -/
theorem answers_addRouter {call : DispatchCall} {shape : Shape} (hplan : call.plan.Small)
    (hshape : shape.Small) (hstream : shape.isStream = true) :
    Answering (Sturdy last room) (addRouter call shape) fun _ => Sturdy last room := by
  have hkind : (ComponentKind.dispatch call.plan).Small := hplan
  refine .lift_bind ((Component.fine_ofKind _ hkind).answers_addInput hshape)
    fun router _ hrouter => .bind_and (.foldlM (B := Component.Fine) (fun _ _ r hr => .weaken (.lift
      (hr.answers_addOutput hshape)) (fun _ h => h) fun _ _ h => ⟨h.1.1, h.2⟩) hrouter.1)
      fun router hrouter => answers_addStateful hrouter fun index hlt =>
        (answers_connect (Nat.lt_succ_self _) (.top _)).bind fun _ => ?_
  refine answers_forget hlt (.forM fun consumer hconsumer => ?_)
  have hbox := hplan.depths consumer.1 (List.fst_mem_of_mem_zipIdx hconsumer)
  have hlimit : Word.limit = 2 ^ 64 := rfl
  exact answers_addQueued (hshape.withDepth (by omega)) hstream (Nat.lt_succ_self _)

theorem answers_dispatch {call : DispatchCall} (hplan : call.plan.Small) :
    Answering (Sturdy last room) (dispatch call) fun _ => Sturdy last room := by
  refine (answers_streamShape _).bind_and fun shape hshape => ?_
  split
  · exact (answers_addWire fun _ => hshape.1).bind fun _ => answers_connect (.top _) (.top _)
  · exact answers_addRouter hplan hshape.1 hshape.2

/-! ### Nests -/

theorem answers_updateNest {change : LoopNest → Fallible LoopNest} {outside : Unsupported}
    (hchange : ∀ n : LoopNest, n.Small → Answers (change n) LoopNest.Small) :
    Answering (Sturdy last room) (updateNest change outside) fun _ => Sturdy last room := by
  refine .look fun c h => ?_
  split
  · exact fun _ _ => trivial
  · next nest hnest =>
    refine .lift_bind (hchange nest (h.nest nest hnest)) fun _ _ hnext => .change fun _ hd => ?_
    exact hd.withNest fun _ hsome => Option.some.inj hsome ▸ hnext

/-- What a nest is given from outside is small. -/
theorem answers_parameters {n : Netlist} (h : n.Small) (nest : LoopNest) (names : List String) :
    Answers (parameters n nest names) fun params => ∀ q ∈ params, q.2.Small := by
  induction names with
  | nil => exact List.forall_mem_nil _
  | cons name rest ih =>
      rw [parameters]
      split
      · exact ih
      split
      · next shape hshape =>
        rw [Option.filter_eq_some_iff] at hshape
        exact ih.bind fun params hparams => List.forall_mem_cons.mpr ⟨h.wire? hshape.1, hparams⟩
      · trivial

theorem answers_stageComponent {plan : StagePlan} (hplan : plan.Small) :
    Answers (stageComponent plan) Component.Fine := by
  have hkind : (ComponentKind.stage plan).Small := hplan
  exact ((Component.fine_ofKind _ hkind).answers_addInputs
    (List.forall_mem_map.mpr hplan.inputs)).bind fun _ hc =>
      (hc.answers_addInputs hplan.params).bind fun _ hd =>
        (hd.answers_addOutput hplan.output).mono fun _ he => he.1

theorem answers_addOutputAdapter {output : NestOutput} {storeExtents : List Nat}
    (hshape : output.port.shape.Small) (hstream : output.port.shape.isStream = true)
    (hstores : ∀ store ∈ storeExtents, store < Word.limit) :
    Answering (Sturdy last room) (addOutputAdapter output storeExtents) fun _ =>
      Sturdy last room := by
  refine .lift_bind (Shape.answers_validate _) fun _ hvalid _ => ?_
  have hinner := hshape.withStoreExtents hvalid hstores
  have houter : ((output.port.shape.withStoreExtents storeExtents).withKind .busStream).Small :=
    hinner.withKind hstream rfl
  refine answers_withPorts (by trivial) hinner houter fun adapter hadapter =>
    answers_addStateful hadapter fun index hlt => (answers_addPort houter).bind fun _ =>
      (answers_connect (Nat.lt_succ_self _) (.top _)).bind fun _ => ?_
  exact answers_forget hlt (answers_connect (.top _) (Nat.lt_succ_self _))

/-- The stage of a small nest is added, and its adapter if it writes an output. -/
theorem answers_addStage {nest : LoopNest} (hnest : nest.Small) :
    Answering (Sturdy last room) (addStage nest) fun _ => Sturdy last room := by
  refine .look fun c h => .lift_bind (answers_parameters h.netlist nest nest.free)
    fun params _ hparams => .lift_bind (hnest.answers_finish hparams)
      fun ⟨plan, output⟩ _ ⟨hplan, hport, houtput⟩ => .lift_bind (answers_stageComponent hplan)
        fun stage _ hstage => answers_addStateful hstage fun index hlt => ?_
  rcases hnest.output output houtput with ⟨hshape, hstream, hstores⟩
  -- The stage itself is only joined to wires, so its number is not needed afterwards.
  refine answers_forget hlt (.bind (.forM fun i _ => answers_connect (Nat.lt_succ_self _) (.top _))
    fun _ => .bind (.forM fun q _ => answers_connect (Nat.lt_succ_self _) (.top _)) fun _ =>
      (answers_addQueued hshape hstream (Nat.lt_succ_self _)).bind fun _ => .look fun d hd =>
        .bind (Q := fun _ => Sturdy index room) (.change fun e he => ?_) fun _ => ?_)
  · exact { he with outputs := fun o ho => he.outputs o (List.mem_of_mem_filter ho) }
  split
  · next stores himage =>
    refine answers_addOutputAdapter hshape hstream ?_
    -- The image is what the write tells, or else that of the argument.
    unfold outputImage at himage
    split at himage
    · next told htold => exact Option.some.inj himage ▸ hstores told htold
    · rcases Option.map_eq_some_iff.mp himage with ⟨entry, hentry, rfl⟩
      exact hd.outputs entry (List.mem_of_find?_eq_some hentry)
  · exact .pure fun _ h => h

theorem answers_endNest : Answering (Sturdy last room) endNest fun _ => Sturdy last room := by
  refine .look fun c h => ?_
  split
  · exact .pure fun _ h => h
  · next nest hnest =>
    refine .bind (Q := fun _ => Sturdy last room) (.change fun d hd => ?_) fun _ =>
      answers_addStage (h.nest nest hnest)
    exact hd.withNest fun _ hnone => absurd hnone (by simp)

/-! ### Statements -/

theorem answers_realize {name : String} {types : List ScalarType} {bounds : List Interval}
    {body : Stmt} (hnode : (Node.stmt (.realize name types bounds body)).Moderate) :
    Answering (Sturdy last room) (realize name types bounds) fun _ => Sturdy last room := by
  rcases hnode with ⟨hvolume, hstencil⟩
  unfold realize
  split
  · exact .lift_bind (answers_realizedShape hvolume) fun _ _ hshape => answers_addWire hshape
  next hname =>
  rcases hstencil (Bool.eq_false_iff.mpr hname) with ⟨hbits, hends⟩
  split
  · exact answers_updateNest fun _ hn => hn.answers_realize hvolume hbits hends
  · exact fun _ _ => trivial

theorem answers_operation {name : String} {args : List Expr} (h : OperationModerate name args) :
    Answering (Sturdy last room) (operation name args) fun _ => Sturdy last room := by
  unfold operation
  split
  · exact .lift_bind ReadStream.answers_ofArgs fun call _ _ => (answers_streamShape _).bind_and
      fun shape hshape => answers_updateNest fun _ hn => hn.answers_read hshape.1
  split
  · exact .lift_bind WriteStream.answers_ofArgs fun call _ hstores =>
      (answers_streamShape _).bind_and fun shape hshape =>
        answers_updateNest fun _ hn => hn.answers_write hshape.1 hshape.2 hstores
  split
  · next hname =>
    refine .lift_bind LineBufferCall.answers_ofArgs fun call hok hpos => ?_
    exact answers_lineBuffer hpos (h.1 hname call (by rw [hok]; rfl))
  split
  · next hname =>
    exact .lift_bind (DispatchCall.answers_ofArgs (h.2 hname)) fun call _ hplan =>
      answers_dispatch hplan
  -- Whatever else is called is refused, and that is an answer.
  · exact fun _ _ => trivial

section Inside

variable {inner : Constructing Unit}
  (hinner : Answering (Sturdy last room) inner fun _ => Sturdy last room)

include hinner

theorem answers_inProducer (name : String) :
    Answering (Sturdy last room) (inProducer name inner) fun _ => Sturdy last room := by
  have hproducer : ∀ producer, Answering (Sturdy last room)
      (modify fun c => { c with producer } : Constructing Unit) fun _ => Sturdy last room :=
    fun _ => .change fun _ h => { h with }
  refine .look fun c h => ?_
  split
  · exact (hproducer _).bind fun _ => hinner.bind fun _ => hproducer _
  · exact hinner.bind fun _ => hproducer _

theorem answers_loop {name : String} {min extent : Expr} {kind : ForKind} {body : Stmt}
    (hnode : (Node.stmt (.loop name min extent kind body)).Moderate) :
    Answering (Sturdy last room) (loop name min extent body inner) fun _ => Sturdy last room := by
  have henter : ∀ n : LoopNest, n.Small →
      Answers (n.enterLoop name min extent body) LoopNest.Small :=
    fun _ hn => hn.answers_enterLoop hnode
  have hset : ∀ n : LoopNest, n.Small → Answering (Sturdy last room)
      (modify fun c => { c with nest := some n } : Constructing Unit) fun _ => Sturdy last room :=
    fun n hn => .change fun _ hd => hd.withNest fun _ hsome => Option.some.inj hsome ▸ hn
  refine .look fun c h => ?_
  split
  · next nest hnest =>
    exact .lift_bind (henter nest (h.nest nest hnest)) fun n _ hn =>
      (hset n hn).bind fun _ => hinner
  -- A loop without a nest around it begins one that is empty, which is small.
  · refine .bind_and (A := LoopNest.Small) (.look fun c h => .pure fun _ hd =>
      ⟨LoopNest.small_empty _ _, hd⟩) fun nest hnest => ?_
    exact .lift_bind (henter nest hnest) fun n _ hn => (hset n hn).bind fun _ =>
      hinner.bind fun _ => answers_endNest

theorem answers_branch {condition : Expr} (hcondition : condition.Moderate) (thenCase : Stmt)
    (hasElse : Bool) :
    Answering (Sturdy last room) (branch condition thenCase hasElse inner) fun _ =>
      Sturdy last room := by
  -- The guard is put on the open nest, if there is one, and taken off again.
  have hchange : ∀ f : LoopNest → LoopNest, (∀ n : LoopNest, n.Small → (f n).Small) →
      Answering (Sturdy last room) (modify fun c => { c with nest := c.nest.map f } :
        Constructing Unit) fun _ => Sturdy last room := by
    refine fun f hf => .change fun c h => h.withNest fun n hn => ?_
    rcases Option.map_eq_some_iff.mp hn with ⟨before, hbefore, rfl⟩
    exact hf before (h.nest before hbefore)
  refine .look fun c h => ?_
  split
  · exact fun _ _ => trivial
  split
  · exact hinner
  split
  · exact (hchange _ fun _ hn => hn.pushGuard hcondition).bind fun _ => hinner.bind fun _ =>
      hchange _ fun _ hn => hn.popGuard
  · exact fun _ _ => trivial

end Inside

end Construction

namespace Stmt

theorem forall_exprNodes (e : Expr) : (∀ x ∈ exprNodes e, x.Moderate) ↔ e.Moderate :=
  List.forall_mem_map

theorem forall_exprsNodes (es : List Expr) :
    (∀ x ∈ exprsNodes es, x.Moderate) ↔ ∀ e ∈ es, e.Moderate := by
  rw [exprsNodes, List.forall_mem_map, Expr.forall_nodesOfList]
  rfl

end Stmt

namespace Construction

variable {last room : Nat}

mutual

/-- Reading a moderate statement answers. -/
theorem answers_statement : ∀ s : Stmt, s.Moderate →
    Answering (Sturdy last room) (statement s) fun _ => Sturdy last room
  | .producer name _ body, h =>
      answers_inProducer (answers_statement body (List.forall_mem_cons.mp h).2) name
  | .block stmts, h => answers_statements stmts (List.forall_mem_cons.mp h).2
  | .loop name min extent kind body, h => by
      simp only [Stmt.Moderate, Stmt.nodes, List.forall_mem_cons, List.forall_mem_append] at h
      unfold statement
      split
      · exact fun _ _ => trivial
      · exact answers_loop (answers_statement body h.2.2) h.1
  | .realize name types bounds body, h =>
      (answers_realize (List.forall_mem_cons.mp h).1).bind fun _ =>
        answers_statement body (List.forall_mem_cons.mp h).2
  | .provide name values args, h => by
      simp only [Stmt.Moderate, Stmt.nodes, List.forall_mem_cons, List.forall_mem_append,
        Stmt.forall_exprsNodes] at h
      exact answers_updateNest fun _ hn => hn.answers_provide h.2.1 h.2.2
  | .letIn name value body, h => by
      simp only [Stmt.Moderate, Stmt.nodes, List.forall_mem_cons, List.forall_mem_append,
        Stmt.forall_exprNodes] at h
      exact (answers_updateNest fun _ hn => hn.answers_bind h.2.1 h.1).bind fun _ =>
        answers_statement body h.2.2
  | .branch condition thenCase _, h => by
      simp only [Stmt.Moderate, Stmt.nodes, List.forall_mem_cons, List.forall_mem_append,
        Stmt.forall_exprNodes] at h
      exact answers_branch (answers_statement thenCase h.2.1.2) h.2.1.1 thenCase _
  | .evaluate value, h => by
      have hnode := (List.forall_mem_cons.mp h).1
      unfold statement evaluate
      split
      · exact answers_operation hnode
      split
      · exact .pure fun _ h => h
      · exact fun _ _ => trivial
  | .assert _ _, _ => fun _ _ => trivial
  | .store _ _ _, _ => fun _ _ => trivial
  | .allocate _ _ _ _, _ => fun _ _ => trivial
  | .free _, _ => fun _ _ => trivial

theorem answers_statements : ∀ ss : List Stmt, (∀ x ∈ Stmt.nodesOfList ss, x.Moderate) →
    Answering (Sturdy last room) (statements ss) fun _ => Sturdy last room
  | [], _ => .pure fun _ h => h
  | s :: rest, h =>
      (answers_statement s (List.forall_mem_append.mp h).1).bind fun _ =>
        answers_statements rest (List.forall_mem_append.mp h).2

end

end Construction

end StencilRtl
