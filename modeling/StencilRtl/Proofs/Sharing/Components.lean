import Mathlib.Data.List.Nodup
import StencilRtl.Proofs.Netlist.Orderly

/-!
# Components of One Kind

What two components of one kind have in common.

A module is shared by all components that ask for the same parameters, and the parameters
do not tell everything a component consists of. They leave out the ports. So sharing is
sound only because components of one kind look alike: an adapter has one stream in either
form, a queue has the same stream on both sides, the wires behind line buffers and routers
carry streams and never their external form. Nothing checks this. It is how designs are
built, so it has to be followed from step to step while a kernel is read.

Slave interfaces and stages have ports of their own. There is one slave interface, and the
stage of a producer bears its name, so neither is ever shared.

## Main definitions

* `Component.Standard`: A component has the ports of its kind.
* `Construction.Uniform`: All components have, and wires are internal.
* `Netlist.Uniform`: What remains of it in the finished design.

## Theorems

* `uniform_operation`, `uniform_followed`: Reading a statement keeps a design uniform.
* `Netlist.uniform_of_ofKernel`: The design of a kernel is uniform.
-/

namespace StencilRtl

namespace Component

/-- A component has the ports of its kind. -/
inductive Standard : Component → Prop
  | slave {c : Component} (hkind : c.kind = .slaveInterface) : Standard c
  | inward {name : String} {shape : Shape} (hshape : shape.kind = .busStream) :
      Standard ⟨name, .adapter .inward, [(startPort, .bit), ("data_in", shape)],
        [(donePort, .bit), ("data_out", shape.withKind .stream)]⟩
  | outward {name : String} {shape : Shape} (hshape : shape.kind = .stream) :
      Standard ⟨name, .adapter .outward, [(startPort, .bit), ("data_in", shape)],
        [(donePort, .bit), ("data_out", shape.withKind .busStream)]⟩
  | queue {name : String} {depth : Nat} {shape : Shape} (hshape : shape.kind = .stream) :
      Standard ⟨name, .queue depth, [("in", shape)], [("out", shape)]⟩
  | lineBuffer {name : String} {image : List Nat} {tile window : Shape}
      (htile : tile.kind = .stream) (hwindow : window.kind = .stream) :
      Standard ⟨name, .lineBuffer image, [("in", tile)], [("out", window)]⟩
  | router {name : String} {plan : DispatchPlan} {shape : Shape}
      (hshape : shape.kind = .stream) :
      Standard ⟨name, .dispatch plan, [(startPort, .bit), ("in", shape)],
        (donePort, .bit) :: plan.consumers.zipIdx.map fun entry => (s!"out_{entry.2}", shape)⟩
  | stage {c : Component} {plan : StagePlan} (hkind : c.kind = .stage plan)
      (hname : c.instanceName = plan.moduleName) (houtput : plan.output.shape.kind = .stream) :
      Standard c

/-- A stage has the name of its module and offers a stream. -/
theorem Standard.of_stage {c : Component} {p : StagePlan} (h : c.Standard) (hkind : c.kind = .stage p) :
    c.instanceName = p.moduleName ∧ p.output.shape.kind = .stream := by
  cases h with
  | stage hstage hname houtput =>
      rcases ComponentKind.stage.inj (hkind.symm.trans hstage) with rfl
      exact ⟨hname, houtput⟩
  | slave hslave => exact absurd (hkind.symm.trans hslave) (by simp)
  | _ => exact absurd hkind (by simp)

end Component

namespace Netlist

/-- Components of one name are one, and so are slave interfaces. Every component has the
    ports of its kind. -/
structure Uniform (n : Netlist) : Prop where
  standard : ∀ c ∈ n.components, c.Standard
  named : ∀ c ∈ n.components, ∀ d ∈ n.components, c.instanceName = d.instanceName → c = d
  slave : ∀ c ∈ n.components, ∀ d ∈ n.components, c.kind = .slaveInterface →
    d.kind = .slaveInterface → c = d

end Netlist

namespace Construction

open Ensures

/-- Every component has the ports of its kind, and no wire carries the external form of a
    stream. -/
structure Uniform (c : Construction) : Prop where
  slave : ∃ s, c.netlist.component c.slave = .ok s ∧ s.kind = .slaveInterface
  only : ∀ index d, c.netlist.component index = .ok d → d.kind = .slaveInterface →
    index = c.slave
  names : (c.netlist.components.map Component.instanceName).Nodup
  standard : ∀ d ∈ c.netlist.components, d.Standard
  internal : ∀ w ∈ c.netlist.wires, w.2.kind ≠ .busStream
  output : ∀ nest ∈ c.nest, ∀ output ∈ nest.output, output.port.shape.kind = .stream

namespace Uniform

variable {c : Construction}

/-- Ports, connections and registers of the design do not matter. -/
theorem of_same (h : Uniform c) {n : Netlist} (hcomponents : n.components = c.netlist.components)
    (hwires : n.wires = c.netlist.wires) : Uniform { c with netlist := n } where
  slave := by
    rcases h.slave with ⟨s, hs, hkind⟩
    refine ⟨s, ?_, hkind⟩
    rw [Netlist.component_ok] at hs ⊢
    rwa [hcomponents]
  only index d hd := by
    refine h.only index d ?_
    rw [Netlist.component_ok] at hd ⊢
    rwa [← hcomponents]
  names := by rw [hcomponents]; exact h.names
  standard := by rw [hcomponents]; exact h.standard
  internal := by rw [hwires]; exact h.internal
  output := h.output

/-- A stream on a wire is in its internal form. -/
theorem kind_eq (h : Uniform c) {name : String} {shape : Shape}
    (hwire : c.netlist.wire? name = some shape) (hstream : shape.isStream = true) :
    shape.kind = .stream := by
  rw [Netlist.wire?, Option.map_eq_some_iff] at hwire
  rcases hwire with ⟨w, hw, rfl⟩
  have hinternal := h.internal w (List.mem_of_find?_eq_some hw)
  rw [Shape.isStream, Bool.or_eq_true, decide_eq_true_iff, decide_eq_true_iff] at hstream
  exact hstream.resolve_right hinternal

end Uniform

theorem uniform_addWire {name : String} {shape : Shape} (hshape : shape.kind ≠ .busStream) :
    Ensures Uniform (addWire name shape) fun _ => Uniform := by
  refine .tryUpdate fun c n h hn => ?_
  rcases Netlist.addWire_ok hn with ⟨_, rfl⟩
  refine ⟨h.slave, h.only, h.names, h.standard, ?_, h.output⟩
  exact List.forall_mem_append.mpr ⟨h.internal, List.forall_mem_singleton.mpr hshape⟩

theorem uniform_addPort {name : String} {shape : Shape} {direction : Direction} :
    Ensures Uniform (addPort name shape direction) fun _ => Uniform := by
  refine .tryUpdate fun c n h hn => ?_
  rcases Netlist.addPort_ok hn with rfl
  exact h.of_same rfl rfl

theorem uniform_connect {target source : Endpoint} :
    Ensures Uniform (connect target source) fun _ => Uniform :=
  .connect fun _ h => h.of_same rfl rfl

theorem uniform_slavePort {name : String} :
    Ensures Uniform (slavePort name) fun _ => Uniform :=
  .slavePort fun _ h => h

/-- The slave interface may get more ports. -/
theorem uniform_updateSlave {change : Component → Fallible Component}
    (hchange : ∀ s s', change s = .ok s' →
      s'.instanceName = s.instanceName ∧ s'.kind = s.kind) :
    Ensures Uniform (updateSlave change) fun _ => Uniform := by
  intro c u c' h hrun
  rcases updateSlave_ok hrun with ⟨s, s', hs, hs', rfl⟩
  rcases hchange s s' hs' with ⟨hname, hkind⟩
  rcases h.slave with ⟨r, hr, hslave⟩
  rcases Except.ok.inj (hs.symm.trans hr) with rfl
  refine ⟨⟨s', Netlist.component_setComponent hr, hkind.trans hslave⟩, fun index d hd hd' => ?_,
    ?_, fun d hd => ?_, h.internal, h.output⟩
  -- Another slave interface would have been one before.
  · by_cases hsame : c.slave = index
    · exact hsame.symm
    · refine h.only index d ?_ hd'
      rw [Netlist.component_ok] at hd ⊢
      rwa [Netlist.setComponent, List.getElem?_set_ne hsame] at hd
  · rw [Netlist.map_setComponent hr hname]
    exact h.names
  · rcases List.mem_or_eq_of_mem_set hd with hd | rfl
    · exact h.standard d hd
    · exact .slave (hkind.trans hslave)

/-- A new component has the ports of its kind and is no slave interface. -/
theorem uniform_addComponent {component : Component} (hstandard : component.Standard)
    (hkind : component.kind ≠ .slaveInterface) :
    Ensures Uniform (addComponent component) fun _ => Uniform := by
  intro c index c' h hrun
  rcases addComponent_inv hrun with ⟨n, hn, rfl⟩
  have hnew := Netlist.addComponent_new hn
  rcases Netlist.addComponent_ok hn with ⟨_, rfl⟩
  rcases h.slave with ⟨s, hs, hslave⟩
  refine ⟨⟨s, ?_, hslave⟩, fun i d hd hd' => ?_, ?_, ?_, h.internal, h.output⟩
  · rw [Netlist.component_ok] at hs ⊢
    rw [List.getElem?_append_left (List.getElem?_eq_some_iff.mp hs).1, hs]
  · rw [Netlist.component_ok] at hd
    -- The last component is the new one, which is no slave interface.
    rcases Nat.lt_or_ge i c.netlist.components.length with hlt | hge
    · refine h.only i d ?_ hd'
      rwa [Netlist.component_ok, ← List.getElem?_append_left hlt]
    · have hmem := List.mem_of_getElem? ((List.getElem?_append_right hge).symm.trans hd)
      exact absurd (List.mem_singleton.mp hmem ▸ hd') hkind
  · rw [List.map_append, List.map_singleton]
    refine List.nodup_append.mpr ⟨h.names, List.pairwise_singleton .., fun x hx y hy => ?_⟩
    rcases List.mem_map.mp hx with ⟨d, hd, rfl⟩
    rw [List.mem_singleton.mp hy]
    rw [Netlist.find?, List.findIdx?_eq_none_iff] at hnew
    exact of_decide_eq_false (hnew d hd)
  · exact List.forall_mem_append.mpr ⟨h.standard, List.forall_mem_singleton.mpr hstandard⟩

theorem uniform_addStateful {component : Component} (hstandard : component.Standard)
    (hkind : component.kind ≠ .slaveInterface) :
    Ensures Uniform (addStateful component) fun _ => Uniform := by
  refine (uniform_addComponent hstandard hkind).bind fun index => ?_
  refine .bind (uniform_updateSlave fun s s' hs => ?_) fun _ => ?_
  · rw [(Component.addInput_ok hs).2]
    exact ⟨rfl, rfl⟩
  exact uniform_slavePort.bind fun _ => uniform_connect.bind fun _ => uniform_slavePort.bind
    fun _ => uniform_connect.bind fun _ => .pure fun _ h => h

/-- The queue of a stream has it on both sides. -/
theorem uniform_addQueued {stream : String} {shape : Shape} {source : Endpoint}
    (hshape : shape.kind = .stream) :
    Ensures Uniform (addQueued stream shape source) fun _ => Uniform := by
  refine .addQueued (uniform_addWire (by rw [hshape]; simp)) (fun _ _ h _ => h) ?_
  refine .lift_bind fun q hq => .lift_bind fun q' hq' => ?_
  rcases Component.eq_of_ports hq hq' with rfl
  exact (uniform_addComponent (.queue hshape) (by simp)).bind fun _ =>
    uniform_connect.bind fun _ => uniform_connect

theorem uniform_addParameter (arg : Argument) (shape : Shape) :
    Ensures Uniform (addParameter arg shape) fun _ => Uniform := by
  intro c u c' h hrun
  rcases addParameter_ok hrun with ⟨hplain, r, d, e, _, houtput, hwire, rfl⟩
  have hinternal : shape.kind ≠ .busStream := fun hkind => by simp [Shape.isStream, hkind] at hplain
  have hplaced : Uniform { c with netlist := { c.netlist with registers := r.1 } } :=
    h.of_same rfl rfl
  have hshown : Uniform d := by
    refine uniform_updateSlave (fun s s' hs => ?_) _ () d hplaced houtput
    rw [(Component.addOutput_ok hs).2]
    exact ⟨rfl, rfl⟩
  exact (uniform_addWire hinternal d () e hshown hwire).of_same rfl rfl

/-- An adapter has a stream in its external form and its internal one. -/
theorem uniform_addInputStream (arg : Argument) {shape : Shape} (hshape : shape.kind = .busStream) :
    Ensures Uniform (addInputStream arg shape) fun _ => Uniform := by
  refine .lift_bind fun a ha => .lift_bind fun b hb => ?_
  rcases Component.eq_of_ports ha hb with rfl
  exact (uniform_addStateful (.inward hshape) (by simp)).bind fun _ =>
    uniform_addPort.bind fun _ => uniform_connect.bind fun _ => uniform_addQueued rfl

theorem uniform_addArgument (arg : Argument) :
    Ensures Uniform (addArgument arg) fun _ => Uniform := by
  refine .lift_bind fun shape _ => ?_
  split
  · exact uniform_addParameter arg shape
  split
  · exact .fails fun _ => by simp [unsupported]
  next hbus =>
  split
  · exact .bind (Q := fun _ => Uniform)
      (.change fun c h => ⟨h.slave, h.only, h.names, h.standard, h.internal, h.output⟩) fun _ =>
        uniform_addWire (by simp [Shape.withKind])
  · exact uniform_addInputStream arg (not_not.mp hbus)

/-- The shape of a stream is that of its wire. -/
theorem uniform_streamShape {stream : String} :
    Ensures Uniform (streamShape stream) fun shape c => Uniform c ∧ shape.kind = .stream :=
  .weaken .streamShape (fun _ h => h) fun _ _ h => ⟨h.1, h.1.kind_eq h.2.1 h.2.2⟩

theorem uniform_lineBuffer (call : LineBufferCall) :
    Ensures Uniform (lineBuffer call) fun _ => Uniform := by
  refine uniform_streamShape.bind fun input => .assume (fun _ h => h.2) fun hinput => ?_
  refine .weaken (P := Uniform) ?_ (fun _ h => h.1) fun _ _ h => h
  refine uniform_streamShape.bind fun output => .assume (fun _ h => h.2) fun houtput => ?_
  refine .weaken (P := Uniform) ?_ (fun _ h => h.1) fun _ _ h => h
  split
  · exact .fails fun _ => by simp [unsupported]
  refine .lift_bind fun a ha => .lift_bind fun b hb => ?_
  rcases Component.eq_of_ports ha hb with rfl
  exact (uniform_addComponent (.lineBuffer hinput houtput) (by simp)).bind fun _ =>
    uniform_connect.bind fun _ => uniform_addQueued houtput

theorem uniform_addRouter (call : DispatchCall) {shape : Shape} (hshape : shape.kind = .stream) :
    Ensures Uniform (addRouter call shape) fun _ => Uniform := by
  refine .lift_bind fun r hr => ?_
  rcases (Component.addInput_ok hr).2 with rfl
  refine .bind (Q := fun r' c => Uniform c ∧ r'.Standard ∧ r'.kind = .dispatch call.plan) ?_
    fun r' => ?_
  · intro c r' c' h hrun
    rcases outputs_of_addOutputs hrun with ⟨rfl, rfl⟩
    exact ⟨h, .router hshape, rfl⟩
  refine .assume (fun _ h => h.2) fun ⟨hstandard, hkind⟩ => ?_
  refine .weaken (P := Uniform) ?_ (fun _ h => h.1) fun _ _ h => h
  exact (uniform_addStateful hstandard (by simp [hkind])).bind fun _ => uniform_connect.bind
    fun _ => .forM fun _ _ => uniform_addQueued hshape

theorem uniform_dispatch (call : DispatchCall) :
    Ensures Uniform (dispatch call) fun _ => Uniform := by
  refine uniform_streamShape.bind fun shape => .assume (fun _ h => h.2) fun hshape => ?_
  refine .weaken (P := Uniform) ?_ (fun _ h => h.1) fun _ _ h => h
  split
  · exact (uniform_addWire (by rw [hshape]; simp)).bind fun _ => uniform_connect
  · exact uniform_addRouter call hshape

theorem uniform_addOutputAdapter {output : NestOutput} (storeExtents : List Nat)
    (houtput : output.port.shape.kind = .stream) :
    Ensures Uniform (addOutputAdapter output storeExtents) fun _ => Uniform := by
  refine .lift_bind fun _ _ => .lift_bind fun a ha => .lift_bind fun b hb => ?_
  have hinner : (output.port.shape.withStoreExtents storeExtents).kind = .stream := houtput
  rcases Component.eq_of_ports ha hb with rfl
  exact (uniform_addStateful (.outward hinner) (by simp)).bind fun _ =>
    uniform_addPort.bind fun _ => uniform_connect.bind fun _ => uniform_connect

/-- A stage has the name of its module. -/
theorem standard_stageComponent {plan : StagePlan} {stage : Component}
    (h : stageComponent plan = .ok stage) (houtput : plan.output.shape.kind = .stream) :
    stage.Standard := by
  rcases stageComponent_eq h with rfl
  exact .stage rfl rfl houtput

theorem uniform_addStage {nest : LoopNest}
    (hnest : ∀ output ∈ nest.output, output.port.shape.kind = .stream) :
    Ensures Uniform (addStage nest) fun _ => Uniform := by
  refine .get_bind fun c h => ?_
  refine .weaken (P := Uniform) ?_ (fun d hd => hd ▸ h) fun _ _ h => h
  refine .lift_bind fun params _ => .lift_bind fun ⟨plan, output⟩ hfinish =>
    .lift_bind fun stage hstage => ?_
  -- The stage offers what its nest writes.
  rcases LoopNest.finish_ok hfinish with ⟨hsome, _, hplan⟩
  have hkind := hnest output hsome
  have hstandard := standard_stageComponent hstage (hplan ▸ hkind)
  refine (uniform_addStateful hstandard (by simp [kind_stageComponent hstage])).bind fun index =>
    .bind (.forM fun _ _ => uniform_connect) fun _ => .bind (.forM fun _ _ => uniform_connect)
      fun _ => (uniform_addQueued hkind).bind fun _ => .get_bind fun d hd => ?_
  refine .weaken (P := Uniform) ?_ (fun e he => he ▸ hd) fun _ _ h => h
  refine .bind (Q := fun _ => Uniform)
    (.change fun e he => ⟨he.slave, he.only, he.names, he.standard, he.internal, he.output⟩)
    fun _ => ?_
  split
  · exact uniform_addOutputAdapter _ hkind
  · exact .pure fun _ h => h

theorem uniform_endNest : Ensures Uniform endNest fun _ => Uniform := by
  refine .get_bind fun c h => ?_
  cases hnest : c.nest with
  | none => exact .pure fun d hd => hd ▸ h
  | some nest =>
      refine .bind (Q := fun _ => Uniform) (.change fun d hd => ?_) fun _ =>
        uniform_addStage (h.output nest hnest)
      subst hd
      exact ⟨h.slave, h.only, h.names, h.standard, h.internal, fun _ hnone => by simp at hnone⟩

/-- What a nest writes is an internal stream. -/
theorem uniform_operation (name : String) (args : List Expr) :
    Ensures Uniform (operation name args) fun _ => Uniform := by
  intro c u c' h hrun
  cases operation_ok hrun with
  | read _ _ _ hbefore hread =>
      refine ⟨h.slave, h.only, h.names, h.standard, h.internal, fun _ hsome output houtput => ?_⟩
      rcases Option.some.inj hsome with rfl
      exact h.output _ hbefore output (LoopNest.output_read hread ▸ houtput)
  | write _ hwire hstream _ hwrite =>
      refine ⟨h.slave, h.only, h.names, h.standard, h.internal, fun _ hsome output houtput => ?_⟩
      rcases Option.some.inj hsome with rfl
      rcases LoopNest.write_ok hwrite with ⟨_, rfl⟩
      rcases Option.some.inj houtput with rfl
      exact h.kind_eq hwire hstream
  | lineBuffer _ hrun => exact uniform_lineBuffer _ c () c' h hrun
  | dispatch _ hrun => exact uniform_dispatch _ c () c' h hrun

/-- Whatever is read keeps a construction uniform. -/
theorem uniform_followed : Followed fun _ c c' => Uniform c → Uniform c' where
  refl _ h := h
  trans h h' hc := h' (h hc)
  producer _ _ h := ⟨h.slave, h.only, h.names, h.standard, h.internal, h.output⟩
  begins _ hnone h := by
    refine ⟨h.slave, h.only, h.names, h.standard, h.internal, fun _ hsome output houtput => ?_⟩
    rcases Option.some.inj hsome with rfl
    exact absurd (hnone.output.symm.trans houtput) (by simp [LoopNest.empty])
  continues hbefore hsame h := by
    refine ⟨h.slave, h.only, h.names, h.standard, h.internal, fun _ hsome output houtput => ?_⟩
    rcases Option.some.inj hsome with rfl
    exact h.output _ hbefore output (hsame.output ▸ houtput)
  ends c u c' hrun h := uniform_endNest c u c' h hrun
  -- A buffer that is called like a stream gets a wire, and its shape is that of a stream.
  realized hshape c u c' hrun h := by
    refine uniform_addWire ?_ c u c' h hrun
    unfold realizedShape at hshape
    split at hshape
    · rcases Fallible.bind_ok.mp hshape with ⟨elem, _, hextents⟩
      rcases Fallible.bind_ok.mp hextents with ⟨extents, _, hpure⟩
      rw [← Except.ok.inj hpure]
      simp [Shape.stream]
    · exact absurd hshape (by simp [unsupported])
  operation name args c u c' hrun h := uniform_operation name args c u c' h hrun

theorem uniform_kernel (k : Kernel) : Ensures Uniform (kernel k) fun _ => Uniform := by
  refine .bind (.forM fun arg _ => uniform_addArgument arg) fun _ c u c' h hrun => ?_
  exact uniform_followed.statement k.body c u c' hrun h

/-- A design with nothing but a slave interface is uniform. -/
theorem uniform_start {bus : Netlist} {name : String} {slave : Nat}
    (h : addBus (.empty name) = .ok (bus, slave)) : Uniform ⟨bus, slave, none, none, []⟩ := by
  rcases addBus_inv h with ⟨s, hkind, _, _, rfl, rfl⟩
  refine ⟨⟨s, rfl, hkind⟩, fun index d hd _ => ?_, List.pairwise_singleton .., ?_, ?_, ?_⟩
  · rw [Netlist.component_ok] at hd
    exact Nat.lt_one_iff.mp (List.getElem?_eq_some_iff.mp hd).1
  · exact List.forall_mem_singleton.mpr (.slave hkind)
  · exact List.forall_mem_nil _
  · exact fun _ hnone => by simp at hnone

end Construction

/-- Names tell the components of a design apart. -/
theorem Netlist.nodup_instanceNames {k : Kernel} {n : Netlist} (h : ofKernel k = .ok n) :
    (n.components.map Component.instanceName).Nodup := by
  rcases ofKernel_ok h with ⟨bus, slave, c, hbus, hkernel, _, rfl, _⟩
  exact (Construction.uniform_kernel k _ () c (Construction.uniform_start hbus) hkernel).names

/-- The design of a kernel is uniform. -/
theorem Netlist.uniform_of_ofKernel {k : Kernel} {n : Netlist} (h : ofKernel k = .ok n) :
    n.Uniform := by
  rcases ofKernel_ok h with ⟨bus, slave, c, hbus, hkernel, _, rfl, _⟩
  have hend := Construction.uniform_kernel k _ () c (Construction.uniform_start hbus) hkernel
  refine ⟨hend.standard, fun d hd e he hname => ?_, fun d hd e he hd' he' => ?_⟩
  · exact List.inj_on_of_nodup_map hend.names hd he hname
  · rcases List.getElem?_of_mem hd with ⟨i, hi⟩
    rcases List.getElem?_of_mem he with ⟨j, hj⟩
    have hfirst := hend.only i d (Netlist.component_ok.mpr hi) hd'
    have hsecond := hend.only j e (Netlist.component_ok.mpr hj) he'
    rw [hfirst, ← hsecond] at hi
    exact Option.some.inj (hi.symm.trans hj)

end StencilRtl
