import StencilRtl.Proofs.Netlist.OneProducer
import StencilRtl.Proofs.Sharing.Stages

/-!
# Starts and Dones

What the slave interface starts, and what it waits for.

Adapters, routers and stages run from a start to an end. When such a block is added to a
design, the slave interface gets an input for it, is connected to its start, and is told on
that input that the block is done. Nothing remembers which inputs these are. When the module
of the slave interface is made, they are recognized by how they end, so it waits for whatever
ends like that. It must not be given such an input for another reason.

Inputs are given to it in two places only: those of the bus at the beginning, none of which
ends so, and one for each of these blocks. What a kernel is called with are outputs of it,
whatever their names are. So its inputs are known, in order, all the time, and the inputs it
waits for are the blocks, one for one.

What a block reports leads nowhere else. Its report is a port like any other, so that has to be
seen from the connections that are made: no other one begins at a port of that name, apart
from those of the slave interface itself, which may have such an output for a parameter.

## Main definitions

* `Netlist.stateful`: The blocks that run from a start to an end.
* `Component.reportPort`: The input on which the slave interface hears of one.
* `Construction.Attached`: All of them are attached to the slave interface.
* `Netlist.Attaches`: What that means for one of them in a finished design.

## Theorems

* `attached_addStateful`: A block is attached when it is added.
* `attached_interior`, `attached_addStage`, `attached_followed`: Nothing else is.
* `addStage_parts`: What adding a stage is made of.
* `Netlist.attaches_of_ofKernel`: What the slave interface of a design starts and waits for.
-/

namespace StencilRtl

/-- The input of the slave interface on which a block reports that it is done. -/
def Component.reportPort (c : Component) : String := c.instanceName ++ doneEnding

namespace Netlist

variable {n : Netlist}

/-- The blocks that run from a start to an end, in the order in which they were added. -/
def stateful (n : Netlist) : List Component := n.components.filter fun c => c.kind.isStateful

/-- What an endpoint drives, in the order in which it was connected. -/
def consumers (n : Netlist) (e : Endpoint) : List Endpoint :=
  (n.connections.filter fun c => c.source = .endpoint e).map Connection.target

theorem stateful_addComponent {m : Netlist} {c : Component} {index : Nat}
    (h : n.addComponent c = .ok (m, index)) :
    m.stateful = n.stateful ++ if c.kind.isStateful then [c] else [] := by
  rcases addComponent_ok h with ⟨_, rfl⟩
  rw [stateful, List.filter_append, List.filter_singleton, cond_eq_ite, stateful]

/-- An element that is left out may be replaced by another one that is left out. -/
theorem filter_set_of_neg {α : Type} (keep : α → Bool) {a b : α} (ha : keep a = false)
    (hb : keep b = false) {l : List α} {i : Nat} (hi : l[i]? = some a) :
    (l.set i b).filter keep = l.filter keep := by
  induction l generalizing i with
  | nil => exact absurd hi (by simp)
  | cons x rest ih =>
      cases i with
      | zero =>
          rcases Option.some.inj hi with rfl
          rw [List.set_cons_zero, List.filter_cons_of_neg (by simp [hb]),
            List.filter_cons_of_neg (by simp [ha])]
      | succ i => rw [List.set_cons_succ, List.filter_cons, List.filter_cons, ih hi]

/-- What is neither started nor done does not count, whatever its ports are. -/
theorem stateful_setComponent {index : Nat} {c d : Component} (hc : n.component index = .ok c)
    (hplain : c.kind.isStateful = false) (hsame : d.kind = c.kind) :
    (n.setComponent index d).stateful = n.stateful :=
  filter_set_of_neg (fun c : Component => c.kind.isStateful) hplain (by rw [hsame, hplain])
    (component_ok.mp hc)

/-- The only producer of an endpoint is the one that is known. -/
theorem producers_eq_singleton {target : Endpoint} {source : Source}
    (hmem : ⟨target, source⟩ ∈ n.connections) (hone : (n.producers target).length = 1) :
    n.producers target = [source] := by
  rcases List.length_eq_one_iff.mp hone with ⟨only, honly⟩
  have hsource := mem_producers.mpr hmem
  rw [honly, List.mem_singleton] at hsource
  rw [honly, hsource]

/-- A connection to an endpoint that has one producer is the only one of its sort, if all others
    of that sort lead there as well. -/
theorem filter_eq_singleton {p : Connection → Bool} {link : Connection}
    (hmem : link ∈ n.connections) (hlink : p link = true)
    (hall : ∀ c ∈ n.connections, p c = true → c.target = link.target)
    (hone : (n.producers link.target).length = 1) : n.connections.filter p = [link] := by
  rw [producers, List.length_map] at hone
  have hinto : n.connections.filter p
      = (n.connections.filter fun c => c.target = link.target).filter p := by
    rw [List.filter_filter]
    refine List.filter_congr fun c hc => ?_
    cases hsort : p c with
    | true => rw [hall c hc hsort, decide_eq_true rfl, Bool.and_true]
    | false => rw [Bool.false_and]
  rcases List.length_eq_one_iff.mp hone with ⟨only, honly⟩
  have hfirst : link = only :=
    List.mem_singleton.mp (honly ▸ List.mem_filter.mpr ⟨hmem, decide_eq_true rfl⟩)
  rw [hinto, honly, ← hfirst, List.filter_cons_of_pos hlink, List.filter_nil]

/-- What all ways from an endpoint have in common is the only one, if it has one producer. -/
theorem consumers_eq_singleton {source target : Endpoint}
    (hmem : ⟨target, .endpoint source⟩ ∈ n.connections)
    (hall : ∀ c ∈ n.connections, c.source = .endpoint source → c.target = target)
    (hone : (n.producers target).length = 1) : n.consumers source = [target] := by
  rw [consumers, filter_eq_singleton hmem (decide_eq_true rfl)
    (fun c hc hsource => hall c hc (of_decide_eq_true hsource)) hone]
  rfl

end Netlist

namespace Construction

open Ensures

/-- Every block that runs from a start to an end is attached to the slave interface, which has
    no inputs but those of the bus and one for each of them. What begins at a report ends at
    the input for it. -/
structure Attached (c : Construction) : Prop where
  slave : ∃ s, c.netlist.component c.slave = .ok s ∧ s.kind = .slaveInterface ∧
    s.inputs = busInputs ++ c.netlist.stateful.map fun d => (d.reportPort, .bit)
  attached : ∀ index d, c.netlist.component index = .ok d → d.kind.isStateful = true →
    ⟨.port index startPort, .endpoint (.port c.slave startOutput)⟩ ∈ c.netlist.connections ∧
      ⟨.port c.slave d.reportPort, .endpoint (.port index donePort)⟩ ∈ c.netlist.connections
  reports : ∀ conn ∈ c.netlist.connections, ∀ index,
    conn.source = .endpoint (.port index donePort) → index = c.slave ∨
      ∃ d, c.netlist.component index = .ok d ∧ conn.target = .port c.slave d.reportPort

namespace Attached

variable {c : Construction} (h : Attached c)

include h

/-- Ports, wires and registers of the design do not matter. -/
theorem of_same {c' : Construction} (hslave : c'.slave = c.slave)
    (hcomponents : c'.netlist.components = c.netlist.components)
    (hconnections : c'.netlist.connections = c.netlist.connections) : Attached c' := by
  have hcomponent : ∀ index, c'.netlist.component index = c.netlist.component index := by
    intro index
    rw [Netlist.component, hcomponents, Netlist.component]
  refine ⟨?_, fun index d hd => ?_, fun conn hconn index hsource => ?_⟩
  · rw [hslave, hcomponent, Netlist.stateful, hcomponents]
    exact h.slave
  · rw [hcomponent] at hd
    rw [hslave, hconnections]
    exact h.attached index d hd
  · rw [hconnections] at hconn
    rw [hslave, hcomponent]
    exact h.reports conn hconn index hsource

/-- Anything may be connected but what a block reports. -/
theorem connect (target : Endpoint) {source : Endpoint}
    (hsource : ∀ index, source = .port index donePort → index = c.slave) :
    Attached { c with netlist := c.netlist.connect target (.endpoint source) } where
  slave := h.slave
  attached index d hd hstateful :=
    (h.attached index d hd hstateful).imp (List.mem_append_left _) (List.mem_append_left _)
  reports conn hconn index hreport := by
    rcases List.mem_append.mp hconn with hconn | hconn
    · exact h.reports conn hconn index hreport
    · rcases List.mem_singleton.mp hconn with rfl
      exact .inl (hsource index (Source.endpoint.inj hreport))

/-- A component that only waits for data is not attached. -/
theorem addComponent {component : Component} {n : Netlist} {index : Nat}
    (hplain : component.kind.isStateful = false)
    (hadd : c.netlist.addComponent component = .ok (n, index)) :
    Attached { c with netlist := n } := by
  have hcomponent := fun {i d} => Netlist.component_addComponent (i := i) (d := d) hadd
  have hstateful := Netlist.stateful_addComponent hadd
  have hconnections : n.connections = c.netlist.connections := by
    rw [(Netlist.addComponent_ok hadd).2]
  rw [hplain, if_neg Bool.false_ne_true, List.append_nil] at hstateful
  refine ⟨?_, fun i d hd hruns => ?_, fun conn hconn i hsource => ?_⟩
  · rcases h.slave with ⟨s, hs, hslave⟩
    exact ⟨s, hcomponent.mpr (.inl hs), by rw [hstateful]; exact hslave⟩
  · rw [hconnections]
    rcases hcomponent.mp hd with hd | ⟨_, rfl⟩
    · exact h.attached i d hd hruns
    · exact absurd (hplain.symm.trans hruns) Bool.false_ne_true
  · exact (h.reports conn (hconnections ▸ hconn) i hsource).imp_right fun ⟨d, hd, htarget⟩ =>
      ⟨d, hcomponent.mpr (.inl hd), htarget⟩

/-- The slave interface may get more outputs. -/
theorem setSlave {s s' : Component} (hs : c.netlist.component c.slave = .ok s)
    (hkind : s'.kind = s.kind) (hinputs : s'.inputs = s.inputs) :
    Attached { c with netlist := c.netlist.setComponent c.slave s' } := by
  rcases h.slave with ⟨r, hr, hslave, hports⟩
  rcases Except.ok.inj (hs.symm.trans hr) with rfl
  -- The slave interface does not run from a start to an end, so it is not among the blocks.
  have hplain : s.kind.isStateful = false := by rw [hslave]; rfl
  refine ⟨⟨s', Netlist.component_setComponent hs, hkind.trans hslave, ?_⟩,
    fun i d hd hruns => ?_, fun conn hconn i hsource => ?_⟩
  · rw [Netlist.stateful_setComponent hs hplain hkind, hinputs, hports]
  · by_cases hsame : c.slave = i
    · subst hsame
      rcases Except.ok.inj ((Netlist.component_setComponent hs).symm.trans hd) with rfl
      exact absurd ((congrArg _ hkind).trans hplain |>.symm.trans hruns) Bool.false_ne_true
    · exact h.attached i d (Netlist.component_setComponent_of_ne hsame ▸ hd) hruns
  · by_cases hsame : c.slave = i
    · exact .inl hsame.symm
    · exact (h.reports conn hconn i hsource).imp_right fun ⟨d, hd, htarget⟩ =>
        ⟨d, (Netlist.component_setComponent_of_ne hsame).trans hd, htarget⟩

end Attached

/-- A block that runs from a start to an end is attached when it is added. -/
theorem attached_addStateful {component : Component}
    (hruns : component.kind.isStateful = true) :
    Ensures Attached (addStateful component) fun _ => Attached := by
  intro c index c' h hrun
  rcases addStateful_inv hrun with ⟨n, s, s', hadd, hs, hs', rfl⟩
  have hcomponent := fun {i d} => Netlist.component_addComponent (i := i) (d := d) hadd
  have hstateful := Netlist.stateful_addComponent hadd
  have hconnections : n.connections = c.netlist.connections := by
    rw [(Netlist.addComponent_ok hadd).2]
  rw [hruns, if_pos rfl] at hstateful
  rcases h.slave with ⟨r, hr, hslave, hinputs⟩
  rcases Except.ok.inj (hs.symm.trans (hcomponent.mpr (.inl hr))) with rfl
  rcases (Component.addInput_ok hs').2 with rfl
  have hplain : s.kind.isStateful = false := by rw [hslave]; rfl
  -- The new component is not the slave interface, so it stays what it was.
  have hother : c.slave ≠ index := by
    rintro rfl
    rcases Except.ok.inj (hs.symm.trans (hcomponent.mpr (.inr ⟨rfl, rfl⟩))) with rfl
    exact absurd (hplain.symm.trans hruns) Bool.false_ne_true
  refine ⟨⟨_, Netlist.component_setComponent hs, hslave, ?_⟩, fun i d hd hd' => ?_,
    fun conn hconn i hsource => ?_⟩
  · have hset := Netlist.stateful_setComponent hs hplain
      (d := { s with inputs := s.inputs ++ [(component.instanceName ++ doneEnding, .bit)] }) rfl
    refine Eq.trans ?_ (congrArg (fun l => busInputs ++ l.map fun d =>
      (d.reportPort, Shape.bit)) (hset.trans hstateful).symm)
    rw [List.map_append, ← List.append_assoc, ← hinputs]
    rfl
  · by_cases hsame : c.slave = i
    · subst hsame
      rcases Except.ok.inj ((Netlist.component_setComponent hs).symm.trans hd) with rfl
      exact absurd (hplain.symm.trans hd') Bool.false_ne_true
    rcases hcomponent.mp (Netlist.component_setComponent_of_ne hsame ▸ hd) with hd | ⟨rfl, rfl⟩
    · refine (h.attached i d hd hd').imp (fun hmem => ?_) fun hmem => ?_
      · exact List.mem_append_left _ (List.mem_append_left _ (hconnections ▸ hmem))
      · exact List.mem_append_left _ (List.mem_append_left _ (hconnections ▸ hmem))
    · exact ⟨List.mem_append_left _ (List.mem_append_right _ (List.mem_singleton_self _)),
        List.mem_append_right _ (List.mem_singleton_self _)⟩
  · by_cases hsame : c.slave = i
    · exact .inl hsame.symm
    refine .inr ?_
    rcases List.mem_append.mp hconn with hconn | hconn
    · rcases List.mem_append.mp hconn with hconn | hconn
      · rcases h.reports conn (hconnections ▸ hconn) i hsource with heq | ⟨d, hd, htarget⟩
        · exact absurd heq.symm hsame
        · exact ⟨d, (Netlist.component_setComponent_of_ne hsame).trans (hcomponent.mpr (.inl hd)),
            htarget⟩
      · rw [List.mem_singleton.mp hconn] at hsource
        exact absurd (Endpoint.port.inj (Source.endpoint.inj hsource)).2 (by decide)
    · rcases List.mem_singleton.mp hconn with rfl
      rcases (Endpoint.port.inj (Source.endpoint.inj hsource)).1 with rfl
      exact ⟨component, (Netlist.component_setComponent_of_ne hother).trans
        (hcomponent.mpr (.inr ⟨rfl, rfl⟩)), rfl⟩

/-- The steps inside a design attach what has to be attached. -/
theorem attached_interior : Interior (fun source => ∀ index, source ≠ .port index donePort)
    fun c c' => Attached c → Attached c' where
  refl _ h := h
  trans h h' hc := h' (h hc)
  allows h := h
  connect _ target _ hsource h := h.connect target fun index heq => absurd heq (hsource index)
  wire hadd h := by
    rcases Netlist.addWire_ok hadd with ⟨_, rfl⟩
    exact h.of_same rfl rfl rfl
  component hplain _ hadd h := h.addComponent hplain hadd
  router hkind c index c' hrun h := attached_addStateful (by rw [hkind]; rfl) c index c' h hrun

theorem attached_addPort {name : String} {shape : Shape} {direction : Direction} :
    Ensures Attached (addPort name shape direction) fun _ => Attached := by
  refine .tryUpdate fun c n h hn => ?_
  rcases Netlist.addPort_ok hn with rfl
  exact h.of_same rfl rfl rfl

/-- A step inside a design, in between others. -/
theorem Ensures.of_leads {α : Type} {P : Construction → Prop} {m : Constructing α}
    (hm : Leads (fun c c' => P c → P c') m) : Ensures P m fun _ => P :=
  fun c a c' h hrun => hm c a c' hrun h

/-- A parameter is an output of the slave interface, even if it has the name of a report. -/
theorem attached_addParameter (arg : Argument) (shape : Shape) :
    Ensures Attached (addParameter arg shape) fun _ => Attached := by
  intro c u c' h hrun
  rcases addParameter_ok hrun with ⟨_, r, d, e, _, houtput, hwire, rfl⟩
  have hplaced : Attached { c with netlist := { c.netlist with registers := r.1 } } :=
    h.of_same rfl rfl rfl
  have hshown : Attached d := by
    rcases updateSlave_ok houtput with ⟨s, s', hs, hs', rfl⟩
    rcases (Component.addOutput_ok hs').2 with rfl
    exact hplaced.setSlave hs rfl rfl
  have hwired : Attached e := attached_interior.addWire d () e hwire hshown
  -- The wire is fed by the slave interface, where a port of any name may begin.
  exact hwired.connect _ fun index heq => (Endpoint.port.inj heq).1.symm

theorem attached_addInputStream (arg : Argument) (shape : Shape) :
    Ensures Attached (addInputStream arg shape) fun _ => Attached := by
  have hI := attached_interior
  refine .lift_bind fun a ha => .lift_bind fun b hb => ?_
  rcases Component.eq_of_ports ha hb with rfl
  exact (attached_addStateful rfl).bind fun _ => attached_addPort.bind fun _ =>
    .bind (.of_leads hI.connectsTop) fun _ => .of_leads (hI.addQueued (hI.allowsPort (by decide)))

theorem attached_addArgument (arg : Argument) :
    Ensures Attached (addArgument arg) fun _ => Attached := by
  refine .lift_bind fun shape _ => ?_
  split
  · exact attached_addParameter arg shape
  split
  · exact .fails fun _ => by simp [unsupported]
  split
  · exact .bind (Q := fun _ => Attached) (.change fun c h => h.of_same rfl rfl rfl) fun _ =>
      .of_leads attached_interior.addWire
  · exact attached_addInputStream arg shape

theorem attached_addOutputAdapter (output : NestOutput) (storeExtents : List Nat) :
    Ensures Attached (addOutputAdapter output storeExtents) fun _ => Attached := by
  have hI := attached_interior
  refine .lift_bind fun _ _ => .lift_bind fun a ha => .lift_bind fun b hb => ?_
  rcases Component.eq_of_ports ha hb with rfl
  exact (attached_addStateful rfl).bind fun _ => attached_addPort.bind fun _ =>
    .bind (.of_leads hI.connectsTop) fun _ =>
      .of_leads (hI.connects (hI.allowsPort (by decide)))

/-- A stage does not offer its stream under the name of its report. -/
theorem output_ne_donePort {plan : StagePlan} {stage : Component}
    (h : stageComponent plan = .ok stage) : plan.output.port ≠ donePort := by
  rcases Fallible.bind_ok.mp h with ⟨s, hs, h⟩
  rcases Fallible.bind_ok.mp h with ⟨s', hs', h⟩
  have hdone : (Component.ofKind plan.moduleName (.stage plan)).port? donePort
      = some (.bit, .output) := rfl
  have hkept := (Component.addInputs_ok hs').1 _ _ ((Component.addInputs_ok hs).1 _ _ hdone)
  intro heq
  rw [← heq, (Component.addOutput_ok h).1] at hkept
  exact absurd hkept (by simp)

/-- A stream need not be written any more. -/
def written (c : Construction) (stream : String) : Construction :=
  { c with outputs := c.outputs.filter fun entry => entry.1 ≠ stream }

/-- What adding a stage is made of: the stage on the wires it is fed by, a queue behind it, and
    for a kernel output the adapter. -/
theorem addStage_parts {allowed : Endpoint → Prop} {R : Construction → Construction → Prop}
    (hR : Interior allowed R) (hstage : ∀ {component plan}, component.kind = .stage plan →
      Leads R (addStateful component)) {nest : LoopNest} {c c' : Construction} {u : Unit}
    (h : addStage nest c = .ok (u, c')) :
    ∃ output d e source, nest.output = some output ∧ R c d ∧ allowed source ∧
      addQueued output.port.port output.port.shape source d = .ok ((), e) ∧
      (outputImage e output = none ∧ c' = e.written output.port.port ∨
        ∃ image, outputImage e output = some image ∧
          addOutputAdapter output image (e.written output.port.port) = .ok ((), c')) := by
  have h₁ := get_bind_ok.mp h
  rcases lift_bind_ok.mp h₁ with ⟨params, hparams, h₂⟩
  rcases lift_bind_ok.mp h₂ with ⟨⟨plan, output⟩, hfinish, h₃⟩
  rcases lift_bind_ok.mp h₃ with ⟨stage, hplan, h₄⟩
  rcases bind_ok.mp h₄ with ⟨index, d₅, hadd, h₅⟩
  rcases bind_ok.mp h₅ with ⟨_, d₆, hinputs, h₆⟩
  rcases bind_ok.mp h₆ with ⟨_, d₇, hparameters, h₇⟩
  rcases bind_ok.mp h₇ with ⟨_, e, hqueue, h₈⟩
  -- The queue is fed by the stream of the stage, so that must not have the name of its report.
  have hname := output_ne_donePort hplan
  rcases LoopNest.finish_ok hfinish with ⟨hwritten, _, heq⟩
  rw [heq] at hname
  refine ⟨output, d₇, e, .port index output.port.port, hwritten, ?_,
    hR.allowsPort hname, hqueue, ?_⟩
  · have hfirst : R d₅ d₆ := hR.forM (fun _ => hR.connectsTop) _ _ _ hinputs
    have hsecond : R d₆ d₇ := hR.forM (fun _ => hR.connectsTop) _ _ _ hparameters
    exact hR.trans (hstage (kind_stageComponent hplan) _ _ _ hadd) (hR.trans hfirst hsecond)
  · have h₉ := get_bind_ok.mp h₈
    have hrest := modify_bind_ok.mp h₉
    cases himage : outputImage e output with
    | none =>
        simp only [himage] at hrest
        exact .inl ⟨rfl, (pure_ok.mp hrest).2⟩
    | some image =>
        simp only [himage] at hrest
        exact .inr ⟨image, rfl, hrest⟩

/-- A stage is attached when it is added, and so is the adapter behind it. -/
theorem attached_addStage {nest : LoopNest} :
    Ensures Attached (addStage nest) fun _ => Attached := by
  have hI := attached_interior
  intro c u c' h hrun
  rcases addStage_parts hI (fun hkind c index c' hrun h =>
    attached_addStateful (by rw [hkind]; rfl) c index c' h hrun) hrun with
    ⟨output, d, e, source, _, hbefore, hsource, hqueue, hrest⟩
  have he : Attached e := hI.addQueued hsource d _ e hqueue (hbefore h)
  have hwritten : Attached (e.written output.port.port) := he.of_same rfl rfl rfl
  rcases hrest with ⟨_, rfl⟩ | ⟨image, _, hadapter⟩
  · exact hwritten
  · exact attached_addOutputAdapter output image _ _ _ hwritten hadapter

theorem attached_endNest : Ensures Attached endNest fun _ => Attached := by
  refine .get_bind fun c h => ?_
  cases c.nest with
  | none => exact .pure fun d hd => hd ▸ h
  | some nest =>
      exact .bind (Q := fun _ => Attached) (.change fun d hd => (hd ▸ h).of_same rfl rfl rfl)
        fun _ => attached_addStage

theorem attached_operation (name : String) (args : List Expr) :
    Ensures Attached (operation name args) fun _ => Attached := by
  have hI := attached_interior
  intro c u c' h hrun
  cases operation_ok hrun with
  | read | write => exact h.of_same rfl rfl rfl
  | lineBuffer _ hrun => exact hI.lineBuffer _ c () c' hrun h
  | dispatch _ hrun => exact hI.dispatch _ c () c' hrun h

/-- Whatever is read of a statement, the blocks it adds are attached. -/
theorem attached_followed : Followed fun _ c c' => Attached c → Attached c' where
  refl _ h := h
  trans h h' hc := h' (h hc)
  producer _ _ h := h.of_same rfl rfl rfl
  begins _ _ h := h.of_same rfl rfl rfl
  continues _ _ h := h.of_same rfl rfl rfl
  ends c u c' hrun h := attached_endNest c u c' h hrun
  realized _ := attached_interior.addWire
  operation name args c u c' hrun h := attached_operation name args c u c' h hrun

theorem attached_kernel (k : Kernel) : Ensures Attached (kernel k) fun _ => Attached := by
  refine .bind (.forM fun arg _ => attached_addArgument arg) fun _ c u c' h hrun => ?_
  exact attached_followed.statement k.body c u c' hrun h

/-- At the beginning there is nothing but the slave interface, which is connected to the bus. -/
theorem attached_start {bus : Netlist} {name : String} {slave : Nat}
    (h : addBus (.empty name) = .ok (bus, slave)) : Attached ⟨bus, slave, none, none, []⟩ := by
  rcases addBus_inv h with ⟨s, hkind, hinputs, _, rfl, rfl⟩
  -- The slave interface is the only component, and it runs from no start.
  have hnone : [s].filter (fun c => c.kind.isStateful) = [] :=
    List.filter_cons_of_neg (by rw [hkind]; exact Bool.false_ne_true)
  refine ⟨⟨s, rfl, hkind, ?_⟩, fun index d hd hruns => ?_, fun conn hconn index hsource => .inl ?_⟩
  · rw [hinputs]
    refine (List.append_nil _).symm.trans (congrArg (busInputs ++ ·) ?_)
    exact (List.map_eq_nil_iff.mpr hnone).symm
  · rw [List.mem_singleton.mp (List.mem_of_getElem? (Netlist.component_ok.mp hd)), hkind] at hruns
    exact absurd hruns Bool.false_ne_true
  · rcases List.mem_map.mp hconn with ⟨⟨port, width, direction⟩, _, rfl⟩
    cases direction with
    | input => exact absurd (Source.endpoint.inj hsource) Endpoint.noConfusion
    | output => exact (Endpoint.port.inj (Source.endpoint.inj hsource)).1.symm

end Construction

namespace Netlist

variable {n : Netlist}

/-- A block of a finished design that is attached to the slave interface: that starts it and
    nothing else does, and it reports there and nowhere else. -/
structure Attaches (n : Netlist) (slave index : Nat) (d : Component) : Prop where
  starts : n.producers (.port index startPort) = [.endpoint (.port slave startOutput)]
  reports : n.consumers (.port index donePort) = [.port slave d.reportPort]
  heard : n.producers (.port slave d.reportPort) = [.endpoint (.port index donePort)]

/-- Whatever runs from a start to an end has an input for the start. -/
theorem start_mem_inputs {k : Kernel} (h : ofKernel k = .ok n) {d : Component}
    (hd : d ∈ n.components) (hruns : d.kind.isStateful = true) :
    (startPort, Shape.bit) ∈ d.inputs := by
  cases (uniform_of_ofKernel h).standard d hd with
  | slave hkind => exact absurd (hkind ▸ hruns) (by simp [ComponentKind.isStateful])
  | inward _ => exact List.mem_cons_self ..
  | outward _ => exact List.mem_cons_self ..
  | queue _ => exact absurd hruns (by simp [ComponentKind.isStateful])
  | lineBuffer _ _ => exact absurd hruns (by simp [ComponentKind.isStateful])
  | router _ => exact List.mem_cons_self ..
  | stage hkind _ _ =>
      rcases Construction.stageComponent_eq (staged_of_ofKernel h d hd _ hkind).1 with rfl
      exact List.mem_cons_self ..

/-- The slave interface waits for what it was given for blocks. -/
theorem doneInputs_eq {s : Component} {blocks : List Component}
    (h : s.inputs = Construction.busInputs ++ blocks.map fun d => (d.reportPort, .bit)) :
    SlaveInterface.doneInputs s = blocks.map Component.reportPort := by
  have hbus : (Construction.busInputs.map Prod.fst).filter (endsWith · doneEnding) = [] := by
    decide +kernel
  have hends : ∀ name ∈ blocks.map Component.reportPort, endsWith name doneEnding = true := by
    intro name hname
    rcases List.mem_map.mp hname with ⟨d, _, rfl⟩
    rw [endsWith, List.isSuffixOf_iff_suffix, Component.reportPort, String.toList_append]
    exact List.suffix_append _ _
  have hnames : (blocks.map fun d => (d.reportPort, Shape.bit)).map Prod.fst
      = blocks.map Component.reportPort := by
    rw [List.map_map]
    rfl
  rw [SlaveInterface.doneInputs, h, List.map_append, List.filter_append, hbus, hnames,
    List.nil_append, List.filter_eq_self.mpr hends]

/-- The slave interface starts all blocks that run from a start to an end, and waits for what
    they report and for nothing else. It is connected to each of them by one connection in
    either direction. -/
theorem attaches_of_ofKernel {k : Kernel} (h : ofKernel k = .ok n) :
    ∃ slave s, n.slaveInterface = .ok slave ∧ n.component slave = .ok s ∧
      s.kind = .slaveInterface ∧
      SlaveInterface.doneInputs s = n.stateful.map Component.reportPort ∧
      (SlaveInterface.doneInputs s).Nodup ∧
      ∀ index d, n.component index = .ok d → d.kind.isStateful = true →
        n.Attaches slave index d := by
  have hstart := fun d hd => start_mem_inputs (d := d) h hd
  have hone := (producers_of_ofKernel h).2.1
  rcases ofKernel_ok h with ⟨bus, slave, c, hbus, hkernel, _, rfl, _⟩
  have hgrows := Construction.grows_respected.kernel Construction.grows_followed k _ _ _ hkernel
  have hnames := (Construction.uniform_kernel k _ _ _ (Construction.uniform_start hbus) hkernel).names
  have hattached := Construction.attached_kernel k _ _ _ (Construction.attached_start hbus) hkernel
  rcases hattached.slave with ⟨s, hs, hkind, hinputs⟩
  have hplain : s.kind.isStateful = false := by rw [hkind]; rfl
  have hdones := doneInputs_eq hinputs
  refine ⟨c.slave, s, ?_, hs, hkind, hdones, ?_, fun index d hd hruns => ?_⟩
  · rw [slaveInterface, hgrows.number, (Construction.addBus_ok hbus).1, hgrows.slave]
  · have hends : (Component.reportPort) = (· ++ doneEnding) ∘ Component.instanceName := rfl
    rw [hdones, hends, ← List.map_map]
    refine List.Nodup.map (fun a b heq => (String.append_left_inj _).mp heq) ?_
    exact (List.filter_sublist.map _).nodup hnames
  have hother : index ≠ c.slave := by
    rintro rfl
    rcases Except.ok.inj (hs.symm.trans hd) with rfl
    exact absurd (hplain.symm.trans hruns) Bool.false_ne_true
  have hmem : d ∈ c.netlist.components := List.mem_of_getElem? (component_ok.mp hd)
  rcases hattached.attached index d hd hruns with ⟨hstarts, hreports⟩
  have hinput : (d.reportPort, Shape.bit) ∈ s.inputs := by
    rw [hinputs]
    exact List.mem_append_right _ (List.mem_map_of_mem (List.mem_filter.mpr ⟨hmem, hruns⟩))
  have hreport := hone _ _ hs _ _ hinput
  -- Every input of a component is driven once, and the connections that are known do it.
  refine ⟨producers_eq_singleton hstarts (hone _ _ hd _ _ (hstart d hmem hruns)),
    consumers_eq_singleton hreports (fun conn hconn hsource => ?_) hreport,
    producers_eq_singleton hreports hreport⟩
  rcases hattached.reports conn hconn index hsource with heq | ⟨e, he, htarget⟩
  · exact absurd heq hother
  · rw [Except.ok.inj (hd.symm.trans he)]
    exact htarget

/-- Hands a stream to its only consumer through a queue, which copies it. The parameter is
    called as if it were a report. -/
def routed : Kernel :=
  ⟨"routed", [.scalar "all_done" (.uint 8), .stream "src.stream" (.uint 8) [1] [4] false,
    .stream "out.stream" (.uint 8) [1] [4] true],
    .block [.dispatchStream "src.stream" [⟨1, 1, 4⟩] [⟨"x", 1, [(0, 4)]⟩],
      copying "b.x" "src.stream" (some "x") "out.stream"]⟩

/-- The slave interface waits for both adapters, the router and the stage. -/
theorem attaches_of_ofKernel_routed :
    ∃ n slave s, ofKernel routed = .ok n ∧ n.slaveInterface = .ok slave ∧
      n.component slave = .ok s ∧ SlaveInterface.doneInputs s =
        ["IO_src_stream_done", "DP_src_stream_done", "FB_out_stream_done", "IO_out_stream_done"] ∧
      ∀ index d, n.component index = .ok d → d.kind.isStateful = true →
        n.Attaches slave index d := by
  have haccepted : (ofKernel routed).map (fun n => n.stateful.map Component.reportPort) = .ok
      ["IO_src_stream_done", "DP_src_stream_done", "FB_out_stream_done",
        "IO_out_stream_done"] := by
    decide +kernel
  rcases Fallible.exists_of_map haccepted with ⟨n, hn, hreports⟩
  rcases attaches_of_ofKernel hn with ⟨slave, s, hslave, hs, _, hdones, _, hattaches⟩
  exact ⟨n, slave, s, hn, hslave, hs, hdones.trans hreports, hattaches⟩

end Netlist

end StencilRtl
