import StencilRtl.Proofs.Netlist.Layers
import StencilRtl.Proofs.Netlist.Orderly

/-!
# Descent of Streams

Reading a kernel never connects a stream upwards.

A connection that is made leads from an input or a wire into a component, from a component
into a queue, from a queue anywhere, from a component to an output, or from a wire to one that
has just been declared. In each case that follows from what was declared the moment before,
so an operation only has to know that the wires it connects are there. Those of a nest have
been looked up while the nest was read and are connected when it ends, which is why they are
remembered with the nest. Other wires are remembered by their names, for as long as it takes to
connect them.

## Main definitions

* `Construction.Layered`: No connection leads upwards, and some names have wires.

## Theorems

* `Layered.grow`, `Layered.connect`: Declaring more, and one connection more.
* `layered_addStateful`, `layered_addQueued`: Components and queues.
* `layered_aliasStream`: Another name of a stream.
* `layered_operation`, `layered_addStage`, `layered_kernel`: Whole operations, and a kernel.
-/

namespace StencilRtl

namespace Construction

open Ensures

/-- No connection leads upwards, what the nest reads has wires, and so have some other names. -/
structure Layered (names : List String) (c : Construction) : Prop where
  netlist : c.netlist.Layered
  slave : ∃ s, c.netlist.component c.slave = .ok s
  nest : ∀ nest ∈ c.nest, ∀ i ∈ nest.inputs, ∃ shape, c.netlist.wire? (wireName i.port) = some shape
  wires : ∀ name ∈ names, ∃ shape, c.netlist.wire? name = some shape

namespace Layered

variable {names : List String} {c : Construction} (h : Layered names c)

include h

/-- A design in which more is declared but nothing more is connected. -/
theorem grow {n : Netlist} (hext : c.netlist.Extends n) (hwires : c.netlist.wires <+: n.wires)
    (hconnections : n.connections = c.netlist.connections)
    (hapart : n.Apart) :
    Layered names { c with netlist := n } where
  netlist :=
    ⟨hapart, fun d hd source hsource =>
      (h.netlist.flows d (hconnections ▸ hd) source hsource).extend hext hwires⟩
  slave := by
    rcases h.slave with ⟨s, hs⟩
    rcases hext.component _ s hs with ⟨s', hs', _⟩
    exact ⟨s', hs'⟩
  nest nest hnest i hi := by
    rcases h.nest nest hnest i hi with ⟨shape, hwire⟩
    exact ⟨shape, hext.wire _ _ hwire⟩
  wires name hname := by
    rcases h.wires name hname with ⟨shape, hwire⟩
    exact ⟨shape, hext.wire _ _ hwire⟩

/-- The same if it is only components that are declared. -/
theorem grow_components {n : Netlist} (hext : c.netlist.Extends n)
    (hwires : n.wires = c.netlist.wires) (hports : n.ports = c.netlist.ports)
    (hconnections : n.connections = c.netlist.connections) :
    Layered names { c with netlist := n } := by
  refine h.grow hext (hwires ▸ List.prefix_rfl) hconnections fun name p hp => ?_
  rw [Netlist.port?, hports] at hp
  rw [Netlist.wire?, hwires]
  exact h.netlist.apart name p hp

/-- More names may be known, -/
theorem know (more : List String)
    (hmore : ∀ name ∈ more, ∃ shape, c.netlist.wire? name = some shape) :
    Layered (more ++ names) c :=
  { h with wires := List.forall_mem_append.mpr ⟨hmore, h.wires⟩ }

/-- or fewer of them. -/
theorem forget {names' : List String} (hnames : ∀ name ∈ names', name ∈ names) :
    Layered names' c :=
  { h with wires := fun name hname => h.wires name (hnames name hname) }

/-- A new component is not the slave interface. -/
theorem addComponent {n : Netlist} {component : Component} {index : Nat}
    (hadd : c.netlist.addComponent component = .ok (n, index)) :
    Layered names { c with netlist := n } ∧ n.component index = .ok component ∧
      index ≠ c.slave := by
  have hext := Netlist.Extends.addComponent hadd
  rcases Netlist.addComponent_ok hadd with ⟨rfl, rfl⟩
  refine ⟨h.grow_components hext rfl rfl rfl, ?_, ?_⟩
  · rw [Netlist.component_ok]
    exact List.getElem?_concat_length
  · rcases h.slave with ⟨s, hs⟩
    rw [Netlist.component_ok] at hs
    exact Nat.ne_of_gt (List.getElem?_eq_some_iff.mp hs).1

theorem connect {source target : Endpoint} (hflows : c.netlist.Flows source target) :
    Layered names { c with netlist := c.netlist.connect target (.endpoint source) } where
  netlist := by
    refine ⟨h.netlist.apart, fun d hd other hother => ?_⟩
    have hext := Netlist.Extends.connect (n := c.netlist) target (.endpoint source)
    rcases List.mem_append.mp hd with hd | hd
    · exact (h.netlist.flows d hd other hother).extend hext List.prefix_rfl
    · rcases List.mem_singleton.mp hd with rfl
      rcases Source.endpoint.inj hother with rfl
      exact hflows.extend hext List.prefix_rfl
  slave := h.slave
  nest := h.nest
  wires := h.wires

end Layered

variable {names : List String}

/-- A new wire is known from then on. -/
theorem layered_addWire {name : String} {shape : Shape} :
    Ensures (Layered names) (addWire name shape) fun _ c =>
      Layered (name :: names) c ∧ c.netlist.wire? name = some shape := by
  refine .tryUpdate fun c n h hn => ?_
  have hext := Netlist.Extends.addWire hn
  have hapart := Netlist.Apart.addWire h.netlist.apart hn
  have hwire := (Netlist.wire?_addWire hn).1
  rcases Netlist.addWire_ok hn with ⟨_, rfl⟩
  exact ⟨(h.grow hext (List.prefix_append _ _) rfl hapart).know [name]
    (List.forall_mem_singleton.mpr ⟨shape, hwire⟩), hwire⟩

theorem layered_addPort {name : String} {shape : Shape} {direction : Direction} :
    Ensures (Layered names) (addPort name shape direction) fun _ c =>
      Layered names c ∧ c.netlist.port? name = some (shape, direction) := by
  refine .tryUpdate fun c n h hn => ?_
  have hext := Netlist.Extends.addPort hn
  have hapart := Netlist.Apart.addPort h.netlist.apart hn
  have hport := Netlist.port?_addPort hn
  rcases Netlist.addPort_ok hn with rfl
  exact ⟨h.grow hext List.prefix_rfl rfl hapart, hport⟩

theorem layered_addComponent {component : Component} :
    Ensures (Layered names) (addComponent component) fun index c =>
      Layered names c ∧ c.netlist.component index = .ok component := by
  intro c index c' h hrun
  rcases addComponent_inv hrun with ⟨n, hn, rfl⟩
  rcases h.addComponent hn with ⟨hgrown, hcomponent, _⟩
  exact ⟨hgrown, hcomponent⟩

theorem layered_updateSlave {change : Component → Fallible Component}
    (hchange : ∀ s s', change s = .ok s' →
      s'.instanceName = s.instanceName ∧ s'.kind = s.kind ∧ s.Extends s') :
    Ensures (Layered names) (updateSlave change) fun _ => Layered names := by
  intro c u c' h hrun
  rcases updateSlave_ok hrun with ⟨s, s', hs, hs', rfl⟩
  rcases hchange s s' hs' with ⟨hname, hkind, hextends⟩
  exact h.grow_components (.setComponent hs hname hkind hextends) rfl rfl rfl

/-- A component that is attached to the slave interface: what starts it and what it reports are
single bits. -/
theorem layered_addStateful {component : Component}
    (hstart : component.port? startPort = some (.bit, .input)) :
    Ensures (Layered names) (addStateful component) fun _ => Layered names := by
  intro c index c' h hrun
  rcases addStateful_inv hrun with ⟨n, s, s', hadd, hs, hs', rfl⟩
  rcases h.addComponent hadd with ⟨hgrown, hcomponent, hother⟩
  rcases Component.addInput_ok hs' with ⟨_, hdeclared⟩
  have hset := hgrown.grow_components (n := n.setComponent c.slave s')
    (.setComponent hs (by rw [hdeclared]) (by rw [hdeclared]) (.addInput hs')) rfl rfl rfl
  have hdone : s'.port? (component.instanceName ++ doneEnding) = some (.bit, .input) := by
    rw [Component.port?_addInput hs', if_pos rfl]
  have hstill : (n.setComponent c.slave s').component index = .ok component := by
    rw [Netlist.component_ok] at hcomponent ⊢
    rw [Netlist.setComponent, List.getElem?_set_ne (Ne.symm hother), hcomponent]
  exact (hset.connect (.plainPort hstill hstart rfl)).connect
    (.plainPort (Netlist.component_setComponent hs) hdone rfl)

/-- The queue of a stream may be fed by anything. -/
theorem layered_driveQueued {stream : String} {shape : Shape} {source : Endpoint} :
    Ensures (Layered names) (driveQueued stream shape source) fun _ => Layered names := by
  refine .lift_bind fun q hq => .lift_bind fun q' hq' => ?_
  have hqueue : q'.kind.isQueue = true := by rw [Component.kind_of_ports hq hq']; rfl
  refine layered_addComponent.bind fun index => ?_
  refine .bind (Q := fun _ c => Layered names c ∧ c.netlist.component index = .ok q')
    (.connect fun c h => ?_) fun _ => .connect fun c h => ?_
  · exact ⟨h.1.connect (.intoQueue h.2 hqueue), h.2⟩
  · exact h.1.connect (.fromQueue h.2 hqueue)

/-- The wire of a stream with a queue is known from then on. -/
theorem layered_addQueued {stream : String} {shape : Shape} {source : Endpoint} :
    Ensures (Layered names) (addQueued stream shape source) fun _ =>
      Layered (wireName stream :: names) := by
  refine .addQueued (layered_addWire.weaken (fun _ h => h) fun _ _ h => h.1) (fun c s h hs => ?_)
    layered_driveQueued
  -- The wire of an output is there already, so it is known before the queue is.
  exact h.know [_] (List.forall_mem_singleton.mpr ⟨s, hs⟩)

theorem layered_connectWire {index : Nat} {port name : String} (hname : name ∈ names) :
    Ensures (Layered names) (connect (.port index port) (.top name)) fun _ => Layered names := by
  refine .connect fun c h => ?_
  rcases h.wires name hname with ⟨shape, hwire⟩
  exact h.connect (.feeds hwire)

/-- The wire of a parameter carries no stream. -/
theorem layered_addParameter (arg : Argument) (shape : Shape) :
    Ensures (Layered names) (addParameter arg shape) fun _ => Layered names := by
  intro c u c' h hrun
  rcases addParameter_ok hrun with ⟨hplain, r, d, e, _, houtput, hwire, rfl⟩
  have hplaced : Layered names { c with netlist := { c.netlist with registers := r.1 } } :=
    h.grow_components ⟨fun _ d hd => ⟨d, hd, rfl, rfl, .refl d⟩, fun _ _ h => h, fun _ _ h => h⟩
      rfl rfl rfl
  have hshown : Layered names d := by
    refine layered_updateSlave (fun s s' hs => ?_) _ () d hplaced houtput
    exact ⟨by rw [(Component.addOutput_ok hs).2], by rw [(Component.addOutput_ok hs).2],
      .addOutput hs⟩
  rcases layered_addWire d () e hshown hwire with ⟨hwired, hfound⟩
  exact (hwired.connect (.plainWire hfound hplain)).forget fun _ => List.mem_cons_of_mem _

theorem layered_addInputStream (arg : Argument) (shape : Shape) :
    Ensures (Layered names) (addInputStream arg shape) fun _ => Layered names := by
  refine .lift_bind fun a ha => .lift_bind fun b hb => ?_
  rcases Component.eq_of_ports ha hb with rfl
  refine (layered_addStateful rfl).bind fun index => layered_addPort.bind fun _ => ?_
  refine .bind (Q := fun _ => Layered names) (.connect fun c h => h.1.connect (.enters h.2))
    fun _ => ?_
  exact .weaken layered_addQueued (fun _ h => h) fun _ _ h =>
    h.forget fun _ => List.mem_cons_of_mem _

theorem layered_addArgument (arg : Argument) :
    Ensures (Layered names) (addArgument arg) fun _ => Layered names := by
  refine .lift_bind fun shape _ => ?_
  split
  · exact layered_addParameter arg shape
  split
  · exact .fails fun _ => by simp [unsupported]
  split
  · refine .bind (Q := fun _ => Layered names)
      (.change fun c h => ⟨h.netlist, h.slave, h.nest, h.wires⟩) fun _ => ?_
    exact .weaken layered_addWire (fun _ h => h) fun _ _ h =>
      h.1.forget fun _ => List.mem_cons_of_mem _
  · exact layered_addInputStream arg shape

/-- A stream that is used has a wire. -/
theorem layered_streamShape {stream : String} :
    Ensures (Layered names) (streamShape stream) fun _ => Layered (wireName stream :: names) :=
  .weaken .streamShape (fun _ h => h) fun shape _ h =>
    h.1.know [_] (List.forall_mem_singleton.mpr ⟨shape, h.2.1⟩)

theorem layered_lineBuffer (call : LineBufferCall) :
    Ensures (Layered names) (lineBuffer call) fun _ => Layered names := by
  refine layered_streamShape.bind fun input => layered_streamShape.bind fun output => ?_
  split
  · exact .fails fun _ => by simp [unsupported]
  refine .lift_bind fun a _ => .lift_bind fun b _ => layered_addComponent.bind fun index => ?_
  refine .weaken (P := Layered (wireName call.output :: wireName call.input :: names)) ?_
    (fun _ h => h.1) fun _ _ h => h
  refine (layered_connectWire (by simp)).bind fun _ => ?_
  exact .weaken layered_addQueued (fun _ h => h) fun _ _ h => h.forget fun name hname => by
    simp [hname]

/-- Another name of a stream has a wire that was declared later than that of the stream. -/
theorem layered_aliasStream {stream consumer : String} {shape : Shape} :
    Ensures (Layered (wireName stream :: names)) (aliasStream stream consumer shape) fun _ =>
      Layered names := by
  intro c u c' h hrun
  rcases bind_ok.mp hrun with ⟨_, d, hwire, hconnect⟩
  rcases Except.ok.inj hconnect with ⟨⟩
  rcases layered_addWire _ _ _ h hwire with ⟨hd, hnew⟩
  rcases tryUpdate_ok hwire with ⟨n, hn, rfl⟩
  rcases Netlist.addWire_ok hn with ⟨hfree, rfl⟩
  exact (hd.connect (.renames (List.prefix_append _ _)
    (Netlist.exists_wire?_iff.mp (h.wires _ (List.mem_cons_self ..)))
    (Netlist.wire?_eq_none_iff.mp hfree) hnew)).forget fun name hname => by simp [hname]

/-- A router is fed by the wire of its stream, and there is a queue behind each of its outputs. -/
theorem layered_addRouter (call : DispatchCall) (shape : Shape) :
    Ensures (Layered (wireName call.stream :: names)) (addRouter call shape) fun _ =>
      Layered names := by
  refine .lift_bind fun r hr => ?_
  rcases (Component.addInput_ok hr).2 with rfl
  refine .bind (Q := fun r' c => Layered (wireName call.stream :: names) c ∧
    r'.port? startPort = some (.bit, .input)) ?_ fun r' => .assume (fun _ h => h.2) fun hstart => ?_
  · intro c r' c' h hrun
    rcases outputs_of_addOutputs hrun with ⟨rfl, rfl⟩
    exact ⟨h, rfl⟩
  refine .weaken (P := Layered (wireName call.stream :: names)) ?_ (fun _ h => h.1) fun _ _ h => h
  refine (layered_addStateful hstart).bind fun index =>
    (layered_connectWire (List.mem_cons_self ..)).bind fun _ => ?_
  refine .weaken (.forM (P := Layered names) fun x _ => ?_)
    (fun _ h => h.forget fun _ => List.mem_cons_of_mem _) fun _ _ h => h
  exact .weaken layered_addQueued (fun _ h => h) fun _ _ h =>
    h.forget fun _ => List.mem_cons_of_mem _

theorem layered_dispatch (call : DispatchCall) :
    Ensures (Layered names) (dispatch call) fun _ => Layered names := by
  refine layered_streamShape.bind fun shape => ?_
  split
  · exact layered_aliasStream
  · exact layered_addRouter call shape

/-- The adapter of an output leads to a port of the design. -/
theorem layered_addOutputAdapter {output : NestOutput} (storeExtents : List Nat)
    (hname : wireName output.port.port ∈ names) :
    Ensures (Layered names) (addOutputAdapter output storeExtents) fun _ => Layered names := by
  refine .lift_bind fun _ _ => .lift_bind fun a ha => .lift_bind fun b hb => ?_
  rcases Component.eq_of_ports ha hb with rfl
  refine (layered_addStateful rfl).bind fun index => layered_addPort.bind fun _ => ?_
  refine .bind (Q := fun _ c => Layered names c ∧ c.netlist.port? output.external = some
    ((output.port.shape.withStoreExtents storeExtents).withKind .busStream, .output))
    (.connect fun c h => ?_) fun _ => .connect fun c h => h.1.connect (.leaves h.2)
  rcases h.1.wires _ hname with ⟨shape, hwire⟩
  exact ⟨h.1.connect (.feeds hwire), h.2⟩

/-- A stage is fed by wires, and there is a queue behind its output. -/
theorem layered_addStage {nest : LoopNest}
    (hinputs : ∀ i ∈ nest.inputs, wireName i.port ∈ names) :
    Ensures (Layered names) (addStage nest) fun _ => Layered names := by
  refine .get_bind fun c h => .lift_bind fun params hparams => .lift_bind fun ⟨plan, output⟩ hfinish =>
    .lift_bind fun stage hstage => ?_
  rcases LoopNest.proper_of_finish hfinish with ⟨_, hplanInputs, hplanParams⟩
  rcases stageComponent_eq hstage with rfl
  -- The parameters have wires as well, since otherwise they would not have been found.
  have hknown := h.know (params.map fun q => wireName q.1)
    (List.forall_mem_map.mpr fun q hq => ⟨q.2, (parameters_ok hparams q hq).1⟩)
  generalize hall : params.map (fun q => wireName q.1) ++ names = all at hknown
  refine .weaken (P := Layered all) (Q := fun _ => Layered all) ?_ (fun d hd => hd ▸ hknown)
    fun _ _ h => h.forget fun name hname => hall ▸ List.mem_append_right _ hname
  refine (layered_addStateful rfl).bind fun index => ?_
  refine .bind (.forM (P := Layered all) fun i hi => layered_connectWire ?_) fun _ => ?_
  · rw [hplanInputs] at hi
    exact hall ▸ List.mem_append_right _ (hinputs i hi)
  refine .bind (.forM (P := Layered all) fun q hq => layered_connectWire ?_) fun _ => ?_
  · rw [hplanParams] at hq
    exact hall ▸ List.mem_append_left _ (List.mem_map.mpr ⟨q, hq, rfl⟩)
  refine layered_addQueued.bind fun _ => .get_bind fun d hd => ?_
  refine .weaken (P := Layered (wireName output.port.port :: all))
    (Q := fun _ => Layered (wireName output.port.port :: all)) ?_ (fun e he => he ▸ hd)
    fun _ _ h => h.forget fun _ => List.mem_cons_of_mem _
  refine .bind (Q := fun _ => Layered (wireName output.port.port :: all))
    (.change fun e he => ⟨he.netlist, he.slave, he.nest, he.wires⟩) fun _ => ?_
  split
  · exact layered_addOutputAdapter _ (List.mem_cons_self ..)
  · exact .pure fun _ h => h

/-- What a nest reads has wires, so its stage can be fed when it ends. -/
theorem layered_endNest : Ensures (Layered names) endNest fun _ => Layered names := by
  refine .get_bind fun c h => ?_
  cases hnest : c.nest with
  | none => exact .pure fun d hd => hd ▸ h
  | some nest =>
      have hknown := h.know (nest.inputs.map fun i => wireName i.port)
        (List.forall_mem_map.mpr fun i hi => h.nest nest hnest i hi)
      refine .weaken (P := fun d => d = c) (.bind (Q := fun _ =>
        Layered (nest.inputs.map (fun i => wireName i.port) ++ names)) (.change fun d hd => ?_)
          fun _ => layered_addStage fun i hi => ?_) (fun _ hd => hd) fun _ _ h =>
            h.forget fun _ => List.mem_append_right _
      · subst hd
        exact ⟨hknown.netlist, hknown.slave, fun _ hnone => absurd hnone (by simp), hknown.wires⟩
      · exact List.mem_append_left _ (List.mem_map.mpr ⟨i, hi, rfl⟩)

/-- What a nest reads are streams that have wires. -/
theorem layered_operation (name : String) (args : List Expr) :
    Ensures (Layered names) (operation name args) fun _ => Layered names := by
  intro c u c' h hrun
  cases operation_ok hrun with
  | read _ hwire _ hbefore hread =>
      refine ⟨h.netlist, h.slave, fun _ hsome i hi => ?_, h.wires⟩
      rcases Option.some.inj hsome with rfl
      rcases LoopNest.inputs_read hread i hi with hi | rfl
      · exact h.nest _ hbefore i hi
      · exact ⟨_, hwire⟩
  -- A write reads nothing, and the other operations do not touch the nest.
  | write _ _ _ hbefore hwrite =>
      refine ⟨h.netlist, h.slave, fun _ hsome i hi => ?_, h.wires⟩
      rcases Option.some.inj hsome with rfl
      rcases LoopNest.write_ok hwrite with ⟨_, rfl⟩
      exact h.nest _ hbefore i hi
  | lineBuffer _ hrun => exact layered_lineBuffer _ c () c' h hrun
  | dispatch _ hrun => exact layered_dispatch _ c () c' h hrun

/-- Whatever is read keeps a construction layered. -/
theorem layered_followed : Followed fun _ c c' => Layered [] c → Layered [] c' where
  refl _ h := h
  trans h h' hc := h' (h hc)
  producer _ _ h := ⟨h.netlist, h.slave, h.nest, h.wires⟩
  begins _ hsame h := by
    refine ⟨h.netlist, h.slave, fun _ hsome i hi => ?_, h.wires⟩
    rcases Option.some.inj hsome with rfl
    rw [hsame.inputs] at hi
    exact absurd hi List.not_mem_nil
  continues hbefore hsame h := by
    refine ⟨h.netlist, h.slave, fun _ hsome i hi => ?_, h.wires⟩
    rcases Option.some.inj hsome with rfl
    rw [hsame.inputs] at hi
    exact h.nest _ hbefore i hi
  ends := fun c u c' hrun h => layered_endNest c u c' h hrun
  realized _ := fun c u c' hrun h => (layered_addWire c u c' h hrun).1.forget
    fun _ hnone => absurd hnone List.not_mem_nil
  operation name args := fun c u c' hrun h => layered_operation name args c u c' h hrun

/-- The ports of the bus lead into the slave interface or out of it. -/
theorem layered_start {bus : Netlist} {name : String} {slave : Nat}
    (h : addBus (.empty name) = .ok (bus, slave)) :
    Layered [] ⟨bus, slave, none, none, []⟩ := by
  rcases addBus_inv h with ⟨s, _, _, _, rfl, rfl⟩
  refine ⟨⟨fun _ _ _ => rfl, fun c hc source hsource => ?_⟩, ⟨s, rfl⟩,
    fun _ hnone => absurd hnone (by simp), List.forall_mem_nil _⟩
  rcases List.mem_map.mp hc with ⟨p, hp, rfl⟩
  have hport : ∀ p ∈ busPorts, ((busPorts.map fun p => (p.1, Shape.uint p.2.1, p.2.2)).find?
      fun q => q.1 = p.1).map Prod.snd = some (Shape.uint p.2.1, p.2.2) := by decide
  rcases p with ⟨port, width, direction⟩
  cases direction with
  | input =>
      rcases Source.endpoint.inj hsource with rfl
      exact .enters (hport _ hp)
  | output =>
      rcases Source.endpoint.inj hsource with rfl
      exact .leaves (hport _ hp)

/-- Reading a kernel keeps a construction layered. -/
theorem layered_kernel (k : Kernel) : Ensures (Layered []) (kernel k) fun _ => Layered [] :=
  .bind (.forM fun arg _ => layered_addArgument arg) fun _ => fun c u c' h hrun =>
    layered_followed.statement k.body c u c' hrun h

end Construction

end StencilRtl
