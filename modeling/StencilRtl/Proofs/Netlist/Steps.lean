import StencilRtl.Netlist.OfKernel
import StencilRtl.Proofs.Fallible

/-!
# Steps of a Construction

What the operations on streams do to a design, for any question one may ask of it.

A kernel is read by operations that are made of a few primitive ones: ports and wires
are declared, components are added and connected, the slave interface gets a port more.
What is asked of a whole operation is a relation between the construction it begins
with and the one it leaves, and it is answered for the primitives. `Respected` says
that all of them respect a relation, apart from adding a stage, which is what loop nests
are for, and adding a slave interface, of which there is one from the start. Everything
from a queue to a router follows from that once, whatever the relation.

Line buffers and routers stand inside a design and make no use of all primitives: they declare
no ports, and a router that is added is attached to the slave interface at once. A relation
that does not survive a block without its start, or one that ports matter to, is respected by
them all the same. `Interior` asks for no more than they need.

Steps fail or return, and only what happens when they return is of interest here,
so the lemmas about the monad take a result apart instead of evaluating a run.

## Main definitions

* `ComponentKind.plan?`: The stage a kind of component is.
* `Construction.Leads`: A step that leads to a related construction.
* `Construction.Chains`: A relation from step to step.
* `Construction.driveQueued`: Driving a wire that is there by a queue.
* `Construction.Operates`: What an operation on streams has done.
* `Construction.Interior`: A relation that the steps inside a design respect.
* `Construction.Respected`: A relation that the primitive steps respect.

## Theorems

* `tryUpdate_ok`, `updateSlave_ok`: What a step has done when it returns.
* `addParameter_ok`: A parameter is allocated, shown and wired.
* `addQueued_ok`: A stream is driven through a queue once it has a wire.
* `operation_ok`: Each of the four operations does what it is for, and there are no others.
* `loop_ok`, `branch_ok`, `inProducer_ok`: How the body of a statement has been read.
* `Interior.lineBuffer`, `Interior.dispatch`: Operations inside a design.
* `Respected.addStateful`, `Respected.addQueued`: Components of other kinds.
* `Respected.interior`, `Respected.addArgument`: Whole operations.
* `Netlist.ofKernel_ok`: The design of a kernel is what a construction ends with.
-/

namespace StencilRtl

/-- The stage a kind of component is. -/
def ComponentKind.plan? : ComponentKind → Option StagePlan
  | .stage plan => some plan
  | _ => none

/-- A stage runs from a start to an end. -/
theorem ComponentKind.plan?_eq_none {kind : ComponentKind} (h : kind.isStateful = false) :
    kind.plan? = none := by
  cases kind with
  | stage plan => exact absurd h (by simp [isStateful])
  | _ => rfl

theorem ComponentKind.plan?_eq_some {kind : ComponentKind} {plan : StagePlan} :
    kind.plan? = some plan ↔ kind = .stage plan := by
  cases kind <;> simp [plan?]

/-- A call without a router has one consumer, which has no queue. -/
theorem DispatchCall.exists_of_isAlias {call : DispatchCall} (h : call.isAlias = true) :
    ∃ only, call.plan.consumers = [only] ∧ only.depth = 0 := by
  unfold isAlias at h
  split at h
  · next only hone => exact ⟨only, hone, of_decide_eq_true h⟩
  · exact absurd h Bool.false_ne_true

namespace Component

theorem kind_ofKind (name : String) (kind : ComponentKind) : (ofKind name kind).kind = kind := by
  unfold ofKind
  split <;> rfl

theorem kind_addInput {c d : Component} {name : String} {shape : Shape}
    (h : c.addInput name shape = .ok d) : d.kind = c.kind := by
  unfold addInput at h
  split at h
  · exact absurd h (by simp [malformed])
  · rw [← Except.ok.inj h]

theorem kind_addOutput {c d : Component} {name : String} {shape : Shape}
    (h : c.addOutput name shape = .ok d) : d.kind = c.kind := by
  unfold addOutput at h
  split at h
  · exact absurd h (by simp [malformed])
  · rw [← Except.ok.inj h]

theorem kind_addInputs {c d : Component} {ports : List (String × Shape)}
    (h : c.addInputs ports = .ok d) : d.kind = c.kind := by
  refine Fallible.foldlM_ok (P := fun b => b.kind = c.kind) (fun b p b' hb hstep => ?_) rfl h
  exact (kind_addInput hstep).trans hb

/-- A component with one port in each direction is of the kind it was made. -/
theorem kind_of_ports {instanceName input output : String} {kind : ComponentKind}
    {inner outer : Shape} {c d : Component}
    (hinput : (ofKind instanceName kind).addInput input inner = .ok c)
    (houtput : c.addOutput output outer = .ok d) : d.kind = kind := by
  rw [kind_addOutput houtput, kind_addInput hinput, kind_ofKind]

end Component

namespace Construction

section Monad

variable {c c' : Construction}

theorem tryUpdate_ok {change : Netlist → Fallible Netlist} {u : Unit}
    (h : tryUpdate change c = .ok (u, c')) :
    ∃ n, change c.netlist = .ok n ∧ c' = { c with netlist := n } := by
  have hstep := get_bind_ok.mp h
  rcases lift_bind_ok.mp hstep with ⟨n, hchange, hmodify⟩
  rcases Except.ok.inj hmodify with ⟨⟩
  exact ⟨n, hchange, rfl⟩

theorem updateSlave_ok {change : Component → Fallible Component} {u : Unit}
    (h : updateSlave change c = .ok (u, c')) :
    ∃ s s', c.netlist.component c.slave = .ok s ∧ change s = .ok s' ∧
      c' = { c with netlist := c.netlist.setComponent c.slave s' } := by
  have hstep := get_bind_ok.mp h
  rcases tryUpdate_ok hstep with ⟨n, hn, rfl⟩
  rcases Fallible.bind_ok.mp hn with ⟨s, hs, hn⟩
  rcases Fallible.bind_ok.mp hn with ⟨s', hs', hn⟩
  exact ⟨s, s', hs, hs', by rw [← Except.ok.inj hn]⟩

theorem addComponent_inv {component : Component} {index : Nat}
    (h : addComponent component c = .ok (index, c')) :
    ∃ n, c.netlist.addComponent component = .ok (n, index) ∧ c' = { c with netlist := n } := by
  have hstep := get_bind_ok.mp h
  rcases lift_bind_ok.mp hstep with ⟨r, hadd, hmodify⟩
  rcases Except.ok.inj hmodify with ⟨⟩
  exact ⟨r.1, hadd, rfl⟩

theorem streamShape_ok {stream : String} {shape : Shape}
    (h : streamShape stream c = .ok (shape, c')) :
    c' = c ∧ c.netlist.wire? (wireName stream) = some shape ∧ shape.isStream = true := by
  have hshape := get_bind_ok.mp h
  cases hfound : (c.netlist.wire? (wireName stream)).filter Shape.isStream with
  | none =>
      simp only [hfound] at hshape
      exact absurd (lift_ok.mp hshape).1 (by simp [undefinedName])
  | some found =>
      simp only [hfound] at hshape
      rcases pure_ok.mp hshape with ⟨rfl, rfl⟩
      exact ⟨rfl, Option.filter_eq_some_iff.mp hfound⟩

/-- What has been done when a component has been attached to the slave interface. -/
theorem addStateful_inv {component : Component} {index : Nat} {c c' : Construction}
    (h : addStateful component c = .ok (index, c')) :
    ∃ n s s', c.netlist.addComponent component = .ok (n, index) ∧ n.component c.slave = .ok s ∧
      s.addInput (component.instanceName ++ doneEnding) .bit = .ok s' ∧
      c' = { c with
        netlist := ((n.setComponent c.slave s').connect (.port index startPort)
          (.endpoint (.port c.slave startOutput))).connect
            (.port c.slave (component.instanceName ++ doneEnding))
            (.endpoint (.port index donePort)) } := by
  rcases bind_ok.mp h with ⟨i, d₁, hadd, h₁⟩
  rcases addComponent_inv hadd with ⟨n, hn, rfl⟩
  rcases bind_ok.mp h₁ with ⟨_, d₂, hslave, h₂⟩
  rcases updateSlave_ok hslave with ⟨s, s', hs, hs', rfl⟩
  -- Reading the number of the slave interface and connecting cannot fail.
  rcases Except.ok.inj h₂ with ⟨⟩
  exact ⟨n, s, s', hn, hs, hs', rfl⟩

/-- A parameter gets a place in the register map, an output of the slave interface and a wire, one
    after the other, and the output drives the wire. -/
theorem addParameter_ok {arg : Argument} {shape : Shape} {u : Unit}
    (h : addParameter arg shape c = .ok (u, c')) :
    shape.isStream = false ∧ ∃ r d e,
      c.netlist.registers.allocate (printName arg.name) shape = .ok r ∧
      updateSlave (fun slave => slave.addOutput (printName arg.name) shape)
        { c with netlist := { c.netlist with registers := r.1 } } = .ok ((), d) ∧
      addWire (wireName (printName arg.name)) shape d = .ok ((), e) ∧
      c' = { e with
        netlist := e.netlist.connect (.top (wireName (printName arg.name)))
          (.endpoint (.port e.slave (printName arg.name))) } := by
  unfold addParameter at h
  split at h
  · exact absurd (lift_ok.mp h).1 (by simp [unsupported])
  next hplain =>
  rcases bind_ok.mp h with ⟨_, d₁, hregister, h₁⟩
  rcases bind_ok.mp h₁ with ⟨_, d, houtput, h₂⟩
  rcases bind_ok.mp h₂ with ⟨_, e, hwire, h₃⟩
  rcases tryUpdate_ok hregister with ⟨n, hn, rfl⟩
  rcases Fallible.bind_ok.mp hn with ⟨r, hr, hpure⟩
  rcases Except.ok.inj hpure with rfl
  rcases Except.ok.inj h₃ with ⟨⟩
  exact ⟨Bool.eq_false_iff.mpr hplain, r, d, e, hr, houtput, hwire, rfl⟩

/-- What is done for a stream once its wire is there: the wire is driven by a new queue. -/
def driveQueued (stream : String) (shape : Shape) (source : Endpoint) : Constructing Unit := do
  let queue := Component.ofKind ("FIFO_" ++ stream) (.queue (max shape.fifoDepth 1))
  let queue ← queue.addInput "in" shape
  let queue ← queue.addOutput "out" shape
  let index ← addComponent queue
  connect (.port index "in") source
  connect (.top (wireName stream)) (.port index "out")

/-- The wire of a stream is declared unless it is there already, and then driven by a queue. -/
theorem addQueued_ok {stream : String} {shape : Shape} {source : Endpoint} {u : Unit}
    (h : addQueued stream shape source c = .ok (u, c')) :
    (∃ d, addWire (wireName stream) shape c = .ok ((), d) ∧
      driveQueued stream shape source d = .ok (u, c')) ∨
    ((∃ s, c.netlist.wire? (wireName stream) = some s) ∧
      driveQueued stream shape source c = .ok (u, c')) := by
  have hstep := get_bind_ok.mp h
  simp only [] at hstep
  split at hstep
  · rcases bind_ok.mp hstep with ⟨_, d, hwire, hdrive⟩
    exact .inl ⟨d, hwire, hdrive⟩
  · next hthere =>
    rw [Option.isNone_iff_eq_none] at hthere
    exact .inr ⟨Option.ne_none_iff_exists'.mp hthere, hstep⟩

/-- What has been done when the nest has been changed. -/
theorem updateNest_ok {change : LoopNest → Fallible LoopNest} {outside : Unsupported} {u : Unit}
    {c c' : Construction} (h : updateNest change outside c = .ok (u, c')) :
    ∃ before nest, c.nest = some before ∧ change before = .ok nest ∧
      c' = { c with nest := some nest } := by
  have hstep := get_bind_ok.mp h
  cases hbefore : c.nest with
  | none =>
      simp only [hbefore] at hstep
      exact absurd (lift_ok.mp hstep).1 (by simp [unsupported])
  | some before =>
      simp only [hbefore] at hstep
      rcases lift_bind_ok.mp hstep with ⟨nest, hnest, hmodify⟩
      rcases Except.ok.inj hmodify with ⟨⟩
      exact ⟨before, nest, rfl, hnest, rfl⟩

/-- What an operation on streams has done when it returns: the nest around it reads or writes a
    stream that has a wire, or a block is added. -/
inductive Operates (args : List Expr) (c : Construction) : String → Construction → Prop
  | read {call : ReadStream} {shape : Shape} {before nest : LoopNest}
      (hcall : ReadStream.ofArgs args = .ok call)
      (hwire : c.netlist.wire? (wireName call.stream) = some shape)
      (hstream : shape.isStream = true) (hbefore : c.nest = some before)
      (hread : before.read call shape = .ok nest) :
      Operates args c ReadStream.callName { c with nest := some nest }
  | write {call : WriteStream} {shape : Shape} {before nest : LoopNest}
      (hcall : WriteStream.ofArgs args = .ok call)
      (hwire : c.netlist.wire? (wireName call.stream) = some shape)
      (hstream : shape.isStream = true) (hbefore : c.nest = some before)
      (hwrite : before.write call shape = .ok nest) :
      Operates args c WriteStream.callName { c with nest := some nest }
  | lineBuffer {call : LineBufferCall} {c' : Construction}
      (hcall : LineBufferCall.ofArgs args = .ok call)
      (hrun : Construction.lineBuffer call c = .ok ((), c')) :
      Operates args c LineBufferCall.callName c'
  | dispatch {call : DispatchCall} {c' : Construction}
      (hcall : DispatchCall.ofArgs args = .ok call)
      (hrun : Construction.dispatch call c = .ok ((), c')) :
      Operates args c DispatchCall.callName c'

theorem operation_ok {name : String} {args : List Expr} {u : Unit} {c c' : Construction}
    (h : operation name args c = .ok (u, c')) : Operates args c name c' := by
  -- The four operations one after the other, and a refusal for all other names.
  unfold operation at h
  split at h
  · next hname =>
    subst hname
    rcases lift_bind_ok.mp h with ⟨call, hcall, hrest⟩
    rcases bind_ok.mp hrest with ⟨shape, d', hshape, hupdate⟩
    rcases streamShape_ok hshape with ⟨rfl, hwire, hstream⟩
    rcases updateNest_ok hupdate with ⟨before, nest, hbefore, hread, rfl⟩
    exact .read hcall hwire hstream hbefore hread
  split at h
  · next hname =>
    subst hname
    rcases lift_bind_ok.mp h with ⟨call, hcall, hrest⟩
    rcases bind_ok.mp hrest with ⟨shape, d', hshape, hupdate⟩
    rcases streamShape_ok hshape with ⟨rfl, hwire, hstream⟩
    rcases updateNest_ok hupdate with ⟨before, nest, hbefore, hwrite, rfl⟩
    exact .write hcall hwire hstream hbefore hwrite
  split at h
  · next hname =>
    subst hname
    rcases lift_bind_ok.mp h with ⟨call, hcall, hrun⟩
    exact .lineBuffer hcall hrun
  split at h
  · next hname =>
    subst hname
    rcases lift_bind_ok.mp h with ⟨call, hcall, hrun⟩
    exact .dispatch hcall hrun
  · exact absurd (lift_ok.mp h).1 (by simp [unsupported])

/-- At the end of a nest its stage is added, if there is a nest. -/
theorem endNest_ok {u : Unit} {c c' : Construction} (h : endNest c = .ok (u, c')) :
    (c.nest = none ∧ c' = c) ∨
      ∃ nest, c.nest = some nest ∧ addStage nest { c with nest := none } = .ok (u, c') := by
  have hstep := get_bind_ok.mp h
  cases hnest : c.nest with
  | none =>
      simp only [hnest] at hstep
      exact .inl ⟨rfl, (pure_ok.mp hstep).2⟩
  | some nest =>
      simp only [hnest] at hstep
      have hadd := modify_bind_ok.mp hstep
      exact .inr ⟨nest, rfl, hadd⟩

theorem addStage_of_endNest {u : Unit} {c c' : Construction} (h : endNest c = .ok (u, c'))
    {nest : LoopNest} (hnest : c.nest = some nest) :
    addStage nest { c with nest := none } = .ok (u, c') := by
  rcases endNest_ok h with ⟨hnone, _⟩ | ⟨other, hother, hadd⟩
  · exact absurd (hnone.symm.trans hnest) (by simp)
  · rcases Option.some.inj (hother.symm.trans hnest) with rfl
    exact hadd

/-- A loop is entered in the nest around it, or else in one that begins and ends with it. -/
theorem loop_ok {name : String} {min extent : Expr} {body : Stmt} {inner : Constructing Unit}
    {u : Unit} {c c' : Construction} (h : loop name min extent body inner c = .ok (u, c')) :
    (∃ before nest, c.nest = some before ∧ before.enterLoop name min extent body = .ok nest ∧
      inner { c with nest := some nest } = .ok (u, c')) ∨
    (c.nest = none ∧ ∃ producer free nest d,
      (LoopNest.empty producer free).enterLoop name min extent body = .ok nest ∧
      inner { c with nest := some nest } = .ok ((), d) ∧ endNest d = .ok (u, c')) := by
  have hstep := get_bind_ok.mp h
  cases hnest : c.nest with
  -- The loop is the next one of the nest that is open.
  | some before =>
      rw [hnest] at hstep
      rcases lift_bind_ok.mp hstep with ⟨nest, henter, hrest⟩
      have hbody := modify_bind_ok.mp hrest
      exact .inl ⟨before, nest, rfl, henter, hbody⟩
  -- The loop is the outermost one of a nest of its own, which becomes a stage at its end.
  | none =>
      rw [hnest] at hstep
      rcases bind_ok.mp hstep with ⟨start, d₂, hbegin, h₂⟩
      rcases Except.ok.inj hbegin with ⟨⟩
      rcases lift_bind_ok.mp h₂ with ⟨nest, henter, h₃⟩
      have h₄ := modify_bind_ok.mp h₃
      rcases bind_ok.mp h₄ with ⟨_, d₅, hbody, hend⟩
      exact .inr ⟨rfl, _, _, nest, d₅, henter, hbody, hend⟩

/-- A conditional stands in a nest and has one case. Its condition is kept while the case is
    read, unless the case contains a read. -/
theorem branch_ok {condition : Expr} {thenCase : Stmt} {hasElse : Bool}
    {inner : Constructing Unit} {u : Unit} {c c' : Construction}
    (h : branch condition thenCase hasElse inner c = .ok (u, c')) :
    (∃ n, c.nest = some n) ∧ hasElse = false ∧
      ((thenCase.containsReadStream = true ∧ inner c = .ok (u, c')) ∨
        thenCase.containsReadStream = false ∧ ∃ d,
          inner { c with nest := c.nest.map fun n => n.pushGuard condition } = .ok ((), d) ∧
          c' = { d with nest := d.nest.map LoopNest.popGuard }) := by
  have hstep := get_bind_ok.mp h
  split at hstep
  · exact absurd (lift_ok.mp hstep).1 (by simp [unsupported])
  next hnest =>
  simp only [Bool.or_eq_true, not_or, Bool.not_eq_true, Option.isNone_eq_false_iff,
    Option.isSome_iff_exists] at hnest
  refine ⟨hnest.1, hnest.2, ?_⟩
  -- A case with a read in it is read as if there were no condition.
  split at hstep
  · next hread => exact .inl ⟨hread, hstep⟩
  next hread =>
  split at hstep
  · have hrest := modify_bind_ok.mp hstep
    rcases bind_ok.mp hrest with ⟨_, d₃, hbody, hpop⟩
    rcases Except.ok.inj hpop with ⟨⟩
    exact .inr ⟨Bool.eq_false_iff.mpr hread, d₃, hbody, rfl⟩
  · exact absurd (lift_ok.mp hstep).1 (by simp [unsupported])

/-- A producer is remembered while its body is read. -/
theorem inProducer_ok {name : String} {body : Constructing Unit} {u : Unit}
    {c c' : Construction} (h : inProducer name body c = .ok (u, c')) :
    ∃ producer d, body { c with producer } = .ok ((), d) ∧
      c' = { d with producer := c.producer } := by
  have hstep := get_bind_ok.mp h
  simp only [] at hstep
  split at hstep
  · have hrest := modify_bind_ok.mp hstep
    rcases bind_ok.mp hrest with ⟨_, d₃, hbody, hback⟩
    rcases Except.ok.inj hback with ⟨⟩
    exact ⟨some name, d₃, hbody, rfl⟩
  · rcases bind_ok.mp hstep with ⟨_, d₃, hbody, hback⟩
    rcases Except.ok.inj hback with ⟨⟩
    exact ⟨c.producer, d₃, hbody, rfl⟩

end Monad

/-- The component of a stage is a stage. -/
theorem kind_stageComponent {plan : StagePlan} {stage : Component}
    (h : stageComponent plan = .ok stage) : stage.kind = .stage plan := by
  rcases Fallible.bind_ok.mp h with ⟨s, hs, h⟩
  rcases Fallible.bind_ok.mp h with ⟨s', hs', h⟩
  rw [Component.kind_addOutput h, Component.kind_addInputs hs', Component.kind_addInputs hs,
    Component.kind_ofKind]

/-- A step that, when it returns, has led to a related construction. -/
def Leads (R : Construction → Construction → Prop) {α : Type} (m : Constructing α) : Prop :=
  ∀ c a c', m c = .ok (a, c') → R c c'

namespace Leads

variable {R : Construction → Construction → Prop} {α β : Type}

/-- What comes behind a computation may rely on its result. -/
theorem lift_bind {x : Fallible α} {f : α → Constructing β}
    (hf : ∀ a, x = .ok a → Leads R (f a)) : Leads R (liftM x >>= f) := by
  intro c b c' h
  rcases lift_bind_ok.mp h with ⟨a, hx, hb⟩
  exact hf a hx c b c' hb

theorem get_bind {f : Construction → Constructing β} (hf : ∀ c, Leads R (f c)) :
    Leads R (get >>= f) := by
  intro c b c' h
  exact hf c c b c' (get_bind_ok.mp h)

theorem change {f : Construction → Construction} (hf : ∀ c, R c (f c)) :
    Leads R (modify f : Constructing Unit) := by
  intro c a c' h
  rcases Except.ok.inj h with ⟨⟩
  exact hf c

/-- A step that fails leads nowhere. -/
theorem fails {x : Fallible α} (hx : ∀ a, x ≠ .ok a) : Leads R (liftM x : Constructing α) := by
  intro c a c' h
  exact absurd (lift_ok.mp h).1 (hx a)

/-- A change of the nest is a change of the nest around the statement. -/
theorem updateNest {change : LoopNest → Fallible LoopNest} {outside : Unsupported}
    (hchange : ∀ c before nest, c.nest = some before → change before = .ok nest →
      R c { c with nest := some nest }) : Leads R (updateNest change outside) := by
  intro c u c' h
  rcases updateNest_ok h with ⟨before, nest, hbefore, hnest, rfl⟩
  exact hchange _ before nest hbefore hnest

end Leads

/-- A relation that leads from the first step to the last one if it leads from each step to
    the next. -/
structure Chains (R : Construction → Construction → Prop) : Prop where
  refl : ∀ c, R c c
  trans : ∀ {c d e}, R c d → R d e → R c e

namespace Chains

variable {R : Construction → Construction → Prop} (hR : Chains R) {α β : Type}

include hR

theorem pure (a : α) : Leads R (Pure.pure a : Constructing α) := by
  intro c b c' h
  rw [(pure_ok.mp h).2]
  exact hR.refl c

theorem bind {m : Constructing α} {f : α → Constructing β} (hm : Leads R m)
    (hf : ∀ a, Leads R (f a)) : Leads R (m >>= f) := by
  intro c b c' h
  rcases bind_ok.mp h with ⟨a, d, ha, hb⟩
  exact hR.trans (hm c a d ha) (hf a d b c' hb)

/-- A step that only fails changes nothing. -/
theorem lift (x : Fallible α) : Leads R (liftM x : Constructing α) := by
  intro c a c' h
  rw [(lift_ok.mp h).2]
  exact hR.refl c

theorem forM {xs : List α} {f : α → Constructing Unit} (hf : ∀ a, Leads R (f a)) :
    Leads R (xs.forM f) := by
  induction xs with
  | nil => exact hR.pure ()
  | cons x rest ih => exact hR.bind (hf x) fun _ => ih

/-- Of a step for each item of a list, what is done before and behind one of them. -/
theorem forM_mem {xs : List α} {f : α → Constructing Unit} (hf : ∀ a, Leads R (f a))
    {c c' : Construction} {u : Unit} (h : xs.forM f c = .ok (u, c')) {x : α} (hx : x ∈ xs) :
    ∃ d d' v, R c d ∧ f x d = .ok (v, d') ∧ R d' c' := by
  induction xs generalizing c with
  | nil => exact absurd hx List.not_mem_nil
  | cons y rest ih =>
      rcases bind_ok.mp h with ⟨v, d, hy, hrest⟩
      rcases List.mem_cons.mp hx with rfl | hx
      · exact ⟨c, d, v, hR.refl c, hy, hR.forM hf d u c' hrest⟩
      · rcases ih hrest hx with ⟨d₁, d₂, w, hbefore, hstep, hbehind⟩
        exact ⟨d₁, d₂, w, hR.trans (hf y c v d hy) hbefore, hstep, hbehind⟩

end Chains

/-- A relation that the steps inside a design respect, between its ports and its stages. A
    router is attached to the slave interface in the step that adds it. Connections are made
    only to sources that are `allowed`. -/
structure Interior (allowed : Endpoint → Prop) (R : Construction → Construction → Prop) : Prop
    extends Chains R where
  allows : ∀ {source}, (∀ index, source ≠ .port index donePort) → allowed source
  connect : ∀ c target {source}, allowed source →
    R c { c with netlist := c.netlist.connect target (.endpoint source) }
  wire : ∀ {c name shape n}, c.netlist.addWire name shape = .ok n → R c { c with netlist := n }
  component : ∀ {c component n index}, component.kind.isStateful = false →
    component.kind ≠ .slaveInterface → c.netlist.addComponent component = .ok (n, index) →
    R c { c with netlist := n }
  router : ∀ {component plan}, component.kind = .dispatch plan →
    Leads R (addStateful component)

namespace Interior

open Leads

variable {allowed : Endpoint → Prop} {R : Construction → Construction → Prop}
  (hR : Interior allowed R)

include hR

theorem connects {target source : Endpoint} (hsource : allowed source) :
    Leads R (Construction.connect target source) :=
  change fun c => hR.connect c target hsource

/-- What a block reports is all that may not be allowed. -/
theorem allowsPort {index : Nat} {name : String} (hname : name ≠ donePort) :
    allowed (.port index name) :=
  hR.allows fun _ heq => hname (Endpoint.port.inj heq).2

theorem connectsTop {target : Endpoint} {name : String} :
    Leads R (Construction.connect target (.top name)) :=
  hR.connects (hR.allows fun _ => Endpoint.noConfusion)

theorem addWire {name : String} {shape : Shape} : Leads R (Construction.addWire name shape) := by
  intro c u c' h
  rcases tryUpdate_ok h with ⟨n, hn, rfl⟩
  exact hR.wire hn

theorem addComponent {component : Component} (hstateful : component.kind.isStateful = false)
    (hslave : component.kind ≠ .slaveInterface) :
    Leads R (Construction.addComponent component) := by
  intro c index c' h
  rcases addComponent_inv h with ⟨n, hn, rfl⟩
  exact hR.component hstateful hslave hn

theorem driveQueued {stream : String} {shape : Shape} {source : Endpoint}
    (hsource : allowed source) : Leads R (Construction.driveQueued stream shape source) := by
  refine lift_bind fun q hq => lift_bind fun q' hq' => ?_
  have hkind := Component.kind_of_ports hq hq'
  exact hR.bind (hR.addComponent (by rw [hkind]; rfl) (by rw [hkind]; simp)) fun _ =>
    hR.bind (hR.connects hsource) fun _ => hR.connects (hR.allowsPort (by decide))

theorem addQueued {stream : String} {shape : Shape} {source : Endpoint}
    (hsource : allowed source) : Leads R (Construction.addQueued stream shape source) := by
  intro c u c' h
  rcases addQueued_ok h with ⟨d, hwire, hdrive⟩ | ⟨_, hdrive⟩
  · exact hR.trans (hR.addWire _ _ _ hwire) (hR.driveQueued hsource _ _ _ hdrive)
  · exact hR.driveQueued hsource _ _ _ hdrive

theorem streamShape {stream : String} : Leads R (Construction.streamShape stream) := by
  refine get_bind fun c => ?_
  split
  · exact hR.pure _
  · exact hR.lift _

/-- A line buffer may be added anywhere. -/
theorem lineBuffer (call : LineBufferCall) : Leads R (Construction.lineBuffer call) := by
  refine hR.bind hR.streamShape fun input => hR.bind hR.streamShape fun output => ?_
  split
  · exact hR.lift _
  · refine lift_bind fun b hb => lift_bind fun b' hb' => ?_
    have hkind := Component.kind_of_ports hb hb'
    exact hR.bind (hR.addComponent (by rw [hkind]; rfl) (by rw [hkind]; simp)) fun _ =>
      hR.bind hR.connectsTop fun _ => hR.addQueued (hR.allowsPort (by decide))

theorem aliasStream {stream consumer : String} {shape : Shape} :
    Leads R (Construction.aliasStream stream consumer shape) :=
  hR.bind hR.addWire fun _ => hR.connectsTop

omit hR in
/-- However many outputs it has, a router is a router. -/
theorem addOutputs_ok {consumers : List (DispatchBox × Nat)} {shape : Shape} {r r' : Component}
    {c c' : Construction}
    (h : consumers.foldlM (fun r (x : DispatchBox × Nat) =>
        (liftM (r.addOutput s!"out_{x.2}" shape) : Constructing Component)) r c = .ok (r', c')) :
    r'.kind = r.kind ∧ c' = c := by
  induction consumers generalizing r c with
  | nil =>
      rcases Except.ok.inj h with ⟨⟩
      exact ⟨rfl, rfl⟩
  | cons x rest ih =>
      rw [List.foldlM_cons] at h
      rcases lift_bind_ok.mp h with ⟨next, hadd, hrest⟩
      rcases ih hrest with ⟨hkind, hsame⟩
      exact ⟨hkind.trans (Component.kind_addOutput hadd), hsame⟩

omit hR in
/-- No output of a router tells that it is done. -/
theorem out_ne_donePort (consumer : Nat) : s!"out_{consumer}" ≠ donePort := by
  intro heq
  have hsecond := congrArg (fun name => name.toList[1]?) heq
  simp [donePort, toString] at hsecond

theorem addRouter {call : DispatchCall} {shape : Shape} :
    Leads R (Construction.addRouter call shape) := by
  refine lift_bind fun r hr => ?_
  intro c u c' h
  rcases bind_ok.mp h with ⟨r', d, hr', hrun⟩
  rcases addOutputs_ok hr' with ⟨hkind, rfl⟩
  rw [Component.kind_addInput hr, Component.kind_ofKind] at hkind
  have hrest : Leads R (do
      let index ← Construction.addStateful r'
      Construction.connect (.port index "in") (.top (wireName call.stream))
      call.plan.consumers.zipIdx.forM fun entry =>
        addConsumer index call.stream shape entry.2 entry.1) :=
    hR.bind (hR.router hkind) fun _ => hR.bind hR.connectsTop fun _ => hR.forM fun _ =>
      hR.addQueued (hR.allowsPort (out_ne_donePort _))
  exact hrest _ _ _ hrun

/-- A stream may be handed on anywhere. -/
theorem dispatch (call : DispatchCall) : Leads R (Construction.dispatch call) := by
  refine hR.bind hR.streamShape fun shape => ?_
  split
  · exact hR.aliasStream
  · exact hR.addRouter

end Interior

/-- A relation that the primitive steps respect. New components are neither stages nor
    slave interfaces. -/
structure Respected (R : Construction → Construction → Prop) : Prop extends Chains R where
  outputs : ∀ c outputs, R c { c with outputs }
  connect : ∀ c target source, R c { c with netlist := c.netlist.connect target source }
  wire : ∀ {c name shape n}, c.netlist.addWire name shape = .ok n → R c { c with netlist := n }
  port : ∀ {c name shape direction n}, c.netlist.addPort name shape direction = .ok n →
    R c { c with netlist := n }
  component : ∀ {c component n index}, component.kind.plan? = none →
    component.kind ≠ .slaveInterface → c.netlist.addComponent component = .ok (n, index) →
    R c { c with netlist := n }
  input : ∀ {c s s' name shape}, c.netlist.component c.slave = .ok s →
    s.addInput name shape = .ok s' → R c { c with netlist := c.netlist.setComponent c.slave s' }
  output : ∀ {c s s' name shape}, c.netlist.component c.slave = .ok s →
    s.addOutput name shape = .ok s' → R c { c with netlist := c.netlist.setComponent c.slave s' }
  register : ∀ {c name shape r}, c.netlist.registers.allocate name shape = .ok r →
    R c { c with netlist := { c.netlist with registers := r.1 } }

namespace Respected

open Leads

variable {R : Construction → Construction → Prop} (hR : Respected R) {α β : Type}

include hR

theorem connects {target source : Endpoint} : Leads R (Construction.connect target source) :=
  change fun c => hR.connect c target (.endpoint source)

theorem addWire {name : String} {shape : Shape} : Leads R (Construction.addWire name shape) := by
  intro c u c' h
  rcases tryUpdate_ok h with ⟨n, hn, rfl⟩
  exact hR.wire hn

theorem addPort {name : String} {shape : Shape} {direction : Direction} :
    Leads R (Construction.addPort name shape direction) := by
  intro c u c' h
  rcases tryUpdate_ok h with ⟨n, hn, rfl⟩
  exact hR.port hn

theorem slaveOutput {name : String} {shape : Shape} :
    Leads R (updateSlave fun slave => slave.addOutput name shape) := by
  intro c u c' h
  rcases updateSlave_ok h with ⟨s, s', hs, hs', rfl⟩
  exact hR.output hs hs'

theorem slavePort {name : String} : Leads R (Construction.slavePort name) :=
  get_bind fun _ => hR.pure _

/-- Behind the new component itself, attaching it to the slave interface is made of
    primitive steps, whatever the component is. -/
theorem addStateful_behind {component : Component} {index : Nat} {c c' : Construction}
    (h : Construction.addStateful component c = .ok (index, c')) :
    ∃ n, c.netlist.addComponent component = .ok (n, index) ∧ R { c with netlist := n } c' := by
  rcases addStateful_inv h with ⟨n, s, s', hadd, hs, hs', rfl⟩
  exact ⟨n, hadd, hR.trans (hR.input hs hs') (hR.trans (hR.connect _ _ _) (hR.connect _ _ _))⟩

theorem addStateful {component : Component} (hstage : component.kind.plan? = none)
    (hslave : component.kind ≠ .slaveInterface) : Leads R (Construction.addStateful component) := by
  intro c index c' h
  rcases hR.addStateful_behind h with ⟨n, hn, hbehind⟩
  exact hR.trans (hR.component hstage hslave hn) hbehind

/-- The steps inside a design are made of the primitive ones. -/
theorem interior : Interior (fun _ => True) R where
  toChains := hR.toChains
  allows _ := trivial
  connect c target {source} _ := hR.connect c target (.endpoint source)
  wire := hR.wire
  component hstateful := hR.component (ComponentKind.plan?_eq_none hstateful)
  router hkind := hR.addStateful (by rw [hkind]; rfl) (by rw [hkind]; simp)

theorem addQueued {stream : String} {shape : Shape} {source : Endpoint} :
    Leads R (Construction.addQueued stream shape source) := hR.interior.addQueued trivial

theorem streamShape {stream : String} : Leads R (Construction.streamShape stream) :=
  hR.interior.streamShape

theorem allocate {name : String} {shape : Shape} : Leads R (tryUpdate fun n => do
    let (registers, _) ← n.registers.allocate name shape
    return { n with registers }) := by
  intro c u c' h
  rcases tryUpdate_ok h with ⟨n, hn, rfl⟩
  rcases Fallible.bind_ok.mp hn with ⟨r, hr, hpure⟩
  rcases Except.ok.inj hpure with rfl
  exact hR.register hr

theorem addParameter (arg : Argument) (shape : Shape) :
    Leads R (Construction.addParameter arg shape) := by
  unfold Construction.addParameter
  split
  · exact hR.lift _
  · exact hR.bind hR.allocate fun _ => hR.bind hR.slaveOutput fun _ => hR.bind hR.addWire fun _ =>
      hR.bind hR.slavePort fun _ => hR.connects

theorem addInputStream (arg : Argument) (shape : Shape) :
    Leads R (Construction.addInputStream arg shape) := by
  refine lift_bind fun a ha => lift_bind fun a' ha' => ?_
  have hkind := Component.kind_of_ports ha ha'
  exact hR.bind (hR.addStateful (by rw [hkind]; rfl) (by rw [hkind]; simp)) fun _ =>
    hR.bind hR.addPort fun _ => hR.bind hR.connects fun _ => hR.addQueued

theorem addOutputStream (arg : Argument) (shape : Shape) :
    Leads R (Construction.addOutputStream arg shape) :=
  hR.bind (change fun c => hR.outputs c _) fun _ => hR.addWire

/-- The arguments of a kernel come before its nests. -/
theorem addArgument (arg : Argument) : Leads R (Construction.addArgument arg) := by
  refine lift_bind fun shape _ => ?_
  split
  · exact hR.addParameter arg shape
  split
  · exact hR.lift _
  split
  · exact hR.addOutputStream arg shape
  · exact hR.addInputStream arg shape

/-- A line buffer may be added anywhere, and a stream may be handed on. -/
theorem lineBuffer (call : LineBufferCall) : Leads R (Construction.lineBuffer call) :=
  hR.interior.lineBuffer call

theorem dispatch (call : DispatchCall) : Leads R (Construction.dispatch call) :=
  hR.interior.dispatch call

theorem addOutputAdapter (output : NestOutput) (storeExtents : List Nat) :
    Leads R (Construction.addOutputAdapter output storeExtents) := by
  refine lift_bind fun _ _ => lift_bind fun a ha => lift_bind fun a' ha' => ?_
  have hkind := Component.kind_of_ports ha ha'
  exact hR.bind (hR.addStateful (by rw [hkind]; rfl) (by rw [hkind]; simp)) fun _ =>
    hR.bind hR.addPort fun _ => hR.bind hR.connects fun _ => hR.connects

/-- Behind the component of a stage, connecting it is made of primitive steps. -/
theorem connectStage (plan : StagePlan) (output : NestOutput) (index : Nat) : Leads R (do
    plan.inputs.forM fun i =>
      Construction.connect (.port index i.port) (.top (wireName i.port))
    plan.params.forM fun (name, _) =>
      Construction.connect (.port index name) (.top (wireName name))
    let stream := output.port.port
    Construction.addQueued stream output.port.shape (.port index stream)
    let image := outputImage (← get) output
    modify fun c => { c with outputs := c.outputs.filter fun entry => entry.1 ≠ stream }
    match image with
    | some storeExtents => Construction.addOutputAdapter output storeExtents
    | none => return ()) := by
  refine hR.bind (hR.forM fun _ => hR.connects) fun _ => hR.bind (hR.forM fun _ => hR.connects)
    fun _ => hR.bind hR.addQueued fun _ => get_bind fun c =>
      hR.bind (change fun c => hR.outputs c _) fun _ => ?_
  split
  · exact hR.addOutputAdapter _ _
  · exact hR.pure _

/-- A stage is made of what its nest is finished to. Behind its component, adding it is made
    of primitive steps. -/
theorem addStage_behind {nest : LoopNest} {c c' : Construction} {u : Unit}
    (h : Construction.addStage nest c = .ok (u, c')) :
    ∃ params plan output stage n index, parameters c.netlist nest nest.free = .ok params ∧
      nest.finish params = .ok (plan, output) ∧ stageComponent plan = .ok stage ∧
      c.netlist.addComponent stage = .ok (n, index) ∧ R { c with netlist := n } c' := by
  have h₁ := get_bind_ok.mp h
  rcases lift_bind_ok.mp h₁ with ⟨params, hparams, h₂⟩
  rcases lift_bind_ok.mp h₂ with ⟨⟨plan, output⟩, hfinish, h₃⟩
  rcases lift_bind_ok.mp h₃ with ⟨stage, hstage, h₄⟩
  rcases bind_ok.mp h₄ with ⟨index, d₅, hadd, h₅⟩
  rcases hR.addStateful_behind hadd with ⟨n, hn, hbehind⟩
  exact ⟨params, plan, output, stage, n, index, hparams, hfinish, hstage, hn,
    hR.trans hbehind (hR.connectStage plan output index _ _ _ h₅)⟩

end Respected

end Construction

/-- The design of a kernel begins with a bus. When the kernel has been read all its outputs are
    written, and the design has been checked. -/
theorem Netlist.ofKernel_ok {k : Kernel} {n : Netlist} (h : ofKernel k = .ok n) :
    ∃ bus slave c, Construction.addBus (.empty (printName k.name)) = .ok (bus, slave) ∧
      Construction.kernel k ⟨bus, slave, none, none, []⟩ = .ok ((), c) ∧ c.outputs = [] ∧
      n = c.netlist ∧ n.validate = .ok () := by
  rcases Fallible.bind_ok.mp h with ⟨⟨bus, slave⟩, hbus, hrun⟩
  rcases Fallible.bind_ok.mp hrun with ⟨⟨_, c⟩, hkernel, hrest⟩
  simp only [] at hrest
  split at hrest
  · exact absurd hrest (by simp [unsupported])
  · next hwritten =>
    rcases Fallible.bind_ok.mp hrest with ⟨_, hvalid, hsame⟩
    rcases Except.ok.inj hsame with rfl
    exact ⟨bus, slave, c, hbus, hkernel, hwritten, rfl, hvalid⟩

end StencilRtl
