import StencilRtl.Proofs.Netlist.Descent
import StencilRtl.Proofs.Netlist.Openings

/-!
# The Interface of an Accelerator

Whether the ports of a design are those its kernel asks for.

A kernel asks for the ports of the bus and for one port for each of its streams. The port has the
name of the root of the argument's, carries what the argument carries, and has one connection,
which is to the adapter of the argument. Which ports a design has is known from how it is made:
the inputs are those of the arguments, but the outputs are those of the writes that leave the
design. So the question is whether these writes and the output streams agree.

Every output stream is written by some such write, since a kernel that forgets one is refused,
and not by two, since the queues of both would have one name. What may go wrong is that a write
leaves the design that is to no output stream, or that it calls one by another name which is
printed the same but has another root. If neither happens the interface is that of the kernel,
and it is not if one of them does.

That a port has one connection follows from the checks of the finished design. An output is
driven once and drives nothing. An input is not driven, and what it drives takes streams in
their external form, which only adapters into the accelerator do. Each of them is driven once and
belongs to an argument, and no two arguments have one port.

## Main definitions

* `Netlist.linksOf`: The connections a name of the top module takes part in.
* `Netlist.Interface`: The interface of a design is that of its kernel.
* `Kernel.Spelled`: The writes that leave a design call the outputs by their names.

## Theorems

* `inward_of_input`: What takes streams in their external form.
* `linksOf_output`, `linksOf_input`: Ports have one connection.
* `interface_of_spelled`, `spelled_of_interface`: Either follows from the other.
* `Netlist.interface_of_ofKernel`: The interface of the design of a kernel.
* `Netlist.exists_misnamed_port`: An output whose port has another name.
-/

namespace StencilRtl

/-- Streams in their external form have lines of their own. -/
theorem Shape.kind_eq_busStream {s t : Shape} (hs : s.kind = .busStream) (h : t.lines = s.lines) :
    t.kind = .busStream := by
  have hlength := congrArg List.length h
  unfold lines at hlength
  rw [hs] at hlength
  cases hkind : t.kind with
  | busStream => rfl
  | _ => simp [hkind] at hlength

theorem Component.mem_inputs_of_port? {c : Component} {name : String} {shape : Shape}
    (h : c.port? name = some (shape, .input)) : (name, shape) ∈ c.inputs := by
  rcases List.mem_append.mp (Netlist.mem_of_find?_fst h) with hmem | hmem
  · rcases List.mem_map.mp hmem with ⟨q, hq, heq⟩
    rcases Prod.mk.inj heq with ⟨hname, hpair⟩
    rw [← hname, ← (Prod.mk.inj hpair).1]
    exact hq
  · rcases List.mem_map.mp hmem with ⟨q, _, heq⟩
    exact absurd (Prod.mk.inj (Prod.mk.inj heq).2).2 (by simp)

namespace Construction

/-- The ports of the top module have names of their own. -/
theorem distinct_respected : Respected fun c c' => (c.netlist.ports.map Prod.fst).Nodup →
    (c'.netlist.ports.map Prod.fst).Nodup where
  refl _ h := h
  trans h h' hc := h' (h hc)
  outputs _ _ h := h
  connect _ _ _ h := h
  wire hadd h := by
    rcases Netlist.addWire_ok hadd with ⟨_, rfl⟩
    exact h
  port {c name _ _ _} hadd h := by
    -- A port is only added under a name that is free.
    have hfree := (Netlist.declares_eq_false.mp (Netlist.addPort_new hadd)).1
    rcases Netlist.addPort_ok hadd with rfl
    rw [List.map_append, List.map_singleton, ← List.concat_eq_append]
    refine h.concat fun hmem => ?_
    rcases List.mem_map.mp hmem with ⟨p, hp, hname⟩
    rw [Netlist.port?, Option.map_eq_none_iff, List.find?_eq_none] at hfree
    exact hfree p hp (decide_eq_true hname)
  component _ _ hadd h := by
    rcases Netlist.addComponent_ok hadd with ⟨_, rfl⟩
    exact h
  input _ _ h := h
  output _ _ h := h
  register _ h := h

theorem distinct_followed : Followed fun _ c c' => (c.netlist.ports.map Prod.fst).Nodup →
    (c'.netlist.ports.map Prod.fst).Nodup := by
  refine distinct_respected.followed (fun _ h => h) (fun _ _ h => h) fun _ _ _ _ hadd h => ?_
  rcases Netlist.addComponent_ok hadd with ⟨_, rfl⟩
  exact h

end Construction

namespace Netlist

/-- The connections a name of the top module takes part in. -/
def linksOf (n : Netlist) (name : String) : List Connection :=
  n.connections.filter fun c => c.target = .top name || c.source = .endpoint (.top name)

/-- The interface of a design is that of its kernel. Besides the ports of the bus, there is one
    for each stream argument, and each of them is connected once, to the adapter of the
    argument. -/
def Interface (n : Netlist) (k : Kernel) : Prop :=
  ∃ args streams, args.Perm (k.args.filter Argument.isStream) ∧
    n.ports = busInterface ++ streams ∧ List.Forall₂ n.Serves args streams ∧
    ∀ p ∈ streams, (n.linksOf p.1).length = 1

variable {k : Kernel} {n : Netlist}

/-- Names tell components apart. -/
theorem index_eq_of_ofKernel (h : ofKernel k = .ok n) {i j : Nat} {d e : Component}
    (hd : n.component i = .ok d) (he : n.component j = .ok e)
    (hname : d.instanceName = e.instanceName) : i = j := by
  rw [component_ok] at hd he
  have hlt : i < (n.components.map Component.instanceName).length := by
    rw [List.length_map]
    exact (List.getElem?_eq_some_iff.mp hd).1
  refine (List.getElem?_inj hlt (nodup_instanceNames h)).mp ?_
  rw [List.getElem?_map, List.getElem?_map, hd, he, Option.map_some, Option.map_some, hname]

/-- Names tell the ports of the top module apart. -/
theorem nodup_ports_of_ofKernel (h : ofKernel k = .ok n) : (n.ports.map Prod.fst).Nodup := by
  rcases ofKernel_ok h with ⟨bus, slave, c, hbus, hkernel, _, rfl, _⟩
  refine Construction.distinct_respected.kernel Construction.distinct_followed k _ () c hkernel ?_
  rw [(opening_of_addBus hbus).1]
  decide

theorem layered_of_ofKernel (h : ofKernel k = .ok n) : n.Layered := by
  rcases ofKernel_ok h with ⟨bus, slave, c, hbus, hkernel, _, rfl, _⟩
  exact (Construction.layered_kernel k _ () c (Construction.layered_start hbus) hkernel).netlist

/-- A port of the top module is found by its name, which no wire has. -/
theorem endpoint_of_mem_ports (h : ofKernel k = .ok n) {p : String × Shape × Direction}
    (hp : p ∈ n.ports) : n.wire? p.1 = none ∧ n.endpoint (.top p.1) = .ok (p.2.1, some p.2.2) := by
  have hport : n.port? p.1 = some p.2 := find?_fst_of_mem (nodup_ports_of_ofKernel h) hp
  have hwire := (layered_of_ofKernel h).apart _ _ hport
  refine ⟨hwire, ?_⟩
  rw [endpoint, hwire, hport]

/-- The inputs of the slave interface are single signals. -/
theorem slave_inputs_of_ofKernel (h : ofKernel k = .ok n) {d : Component}
    (hd : d ∈ n.components) (hkind : d.kind = .slaveInterface) :
    ∀ q ∈ d.inputs, q.2.kind ≠ .busStream := by
  have huniform := uniform_of_ofKernel h
  rcases ofKernel_ok h with ⟨bus, slave, c, hbus, hkernel, _, rfl, _⟩
  have hattached := Construction.attached_kernel k _ _ _ (Construction.attached_start hbus) hkernel
  rcases hattached.slave with ⟨s, hs, hslave, hinputs⟩
  rcases huniform.slave d hd s (List.mem_of_getElem? (component_ok.mp hs)) hkind hslave with rfl
  rw [hinputs]
  refine List.forall_mem_append.mpr ⟨by decide +kernel, fun q hq => ?_⟩
  rcases List.mem_map.mp hq with ⟨e, _, rfl⟩
  exact (by decide : Shape.bit.kind ≠ .busStream)

/-- Nothing but the adapters into the accelerator takes a stream in its external form. -/
theorem inward_of_input (h : ofKernel k = .ok n) {d : Component} (hd : d ∈ n.components)
    {name : String} {shape : Shape} (hinput : (name, shape) ∈ d.inputs)
    (hbus : shape.kind = .busStream) : d.kind = .adapter .inward ∧ name = "data_in" := by
  have hbit : Shape.bit.kind ≠ .busStream := by decide
  -- Of the inputs of a block that is started, the start is a single signal.
  have hstarted : ∀ {rest : List (String × Shape)},
      (name, shape) ∈ (startPort, Shape.bit) :: rest → (name, shape) ∈ rest := by
    intro rest hmem
    rcases List.mem_cons.mp hmem with heq | hmem
    · exact absurd ((Prod.mk.inj heq).2 ▸ hbus) hbit
    · exact hmem
  have hinternal : ∀ {inner : Shape}, inner.kind = .stream → shape ≠ inner := by
    rintro inner hinner rfl
    exact absurd (hinner.symm.trans hbus) (by simp)
  cases (uniform_of_ofKernel h).standard d hd with
  | slave hkind => exact absurd hbus (slave_inputs_of_ofKernel h hd hkind _ hinput)
  | inward _ => exact ⟨rfl, (Prod.mk.inj (List.mem_singleton.mp (hstarted hinput))).1⟩
  | outward hshape =>
      exact absurd (Prod.mk.inj (List.mem_singleton.mp (hstarted hinput))).2 (hinternal hshape)
  | queue hshape => exact absurd (Prod.mk.inj (List.mem_singleton.mp hinput)).2 (hinternal hshape)
  | lineBuffer htile _ =>
      exact absurd (Prod.mk.inj (List.mem_singleton.mp hinput)).2 (hinternal htile)
  | router hshape =>
      exact absurd (Prod.mk.inj (List.mem_singleton.mp (hstarted hinput))).2 (hinternal hshape)
  | stage hkind _ _ =>
      rcases staged_of_ofKernel h d hd _ hkind with ⟨hmade, hproper⟩
      rcases Construction.stageComponent_eq hmade with rfl
      rcases List.mem_append.mp (hstarted hinput) with hmem | hmem
      · rcases List.mem_map.mp hmem with ⟨i, hi, heq⟩
        exact absurd (Prod.mk.inj heq).2.symm (hinternal (hproper.inputs i hi))
      · exact absurd (hproper.params _ hmem) (by simp [Shape.isStream, hbus])

theorem mem_inwards {d : Component} (hd : d ∈ n.components) (hkind : d.kind = .adapter .inward) :
    d.instanceName ∈ n.inwards := by
  refine List.mem_filterMap.mpr ⟨_, List.mem_map_of_mem hd, ?_⟩
  rw [Component.inward?, if_pos hkind, id]

/-- The port of an input leads into the accelerator. -/
theorem opened_of_serves {a : Argument} {p : String × Shape × Direction} (ha : a ∈ k.inputStreams)
    (hserves : n.Serves a p) : ∃ shape, n.Opened .inward a.printed a.external shape p := by
  rcases hserves with ⟨shape, _, hopened⟩
  have hinput := (List.mem_filter.mp ha).2
  rw [Argument.isInput, Bool.and_eq_true, Bool.not_eq_true'] at hinput
  rw [Argument.side, hinput.2, if_neg Bool.false_ne_true] at hopened
  exact ⟨shape, hopened⟩

section Ports

variable (h : ofKernel k = .ok n) {ins outs : List (String × Shape × Direction)}
  (ho : n.Openings k ins outs)

include h ho

/-- A port for an output has one connection, which comes from its adapter. -/
theorem linksOf_output {p : String × Shape × Direction} (hp : p ∈ outs) :
    (n.linksOf p.1).length = 1 := by
  have hmem : p ∈ n.ports := ho.ports ▸ List.mem_append_right _ hp
  rcases exists_of_forall₂ ho.outs.flip hp with ⟨w, _, shape, _, hopened⟩
  rcases hopened.adapter with ⟨index, d, hd, _, _, hlink⟩
  have hdirection : p.2.2 = .output := hopened.direction
  have hone := (producers_of_ofKernel h).1 p.1 p.2.1 (by rw [← hdirection]; exact hmem)
  rcases ofKernel_ok h with ⟨_, _, _, _, _, _, _, hvalid⟩
  rw [← hopened.name] at hlink
  rw [linksOf, filter_eq_singleton hlink (by simp [AdapterSide.link]) (fun c hc htop => ?_) hone]
  · rfl
  rcases Bool.or_eq_true_iff.mp htop with htarget | hsource
  · exact of_decide_eq_true htarget
  -- An output drives nothing.
  rcases checkConnection_ok ((validate_ok hvalid).1 c hc) with ⟨_, _, _, hdriver⟩
  rcases hdriver _ (of_decide_eq_true hsource) with ⟨s, hs, hdrives, _⟩
  have hshape := hs.shape.symm.trans (endpoint_of_mem_ports h hmem).2
  rw [(Prod.mk.inj (Except.ok.inj hshape)).2, hdirection] at hdrives
  exact absurd hdrives (by simp [canDrive])

/-- Input streams are told apart by their ports. -/
theorem nodup_external : (k.inputStreams.map Argument.external).Nodup := by
  have hsublist : (ins.map Prod.fst).Sublist (n.ports.map Prod.fst) := by
    rw [ho.ports]
    exact ((List.sublist_append_right ..).trans (List.sublist_append_left ..)).map _
  have hnames : ins.map Prod.fst = k.inputStreams.map Argument.external :=
    map_eq_of_forall₂ ho.ins fun a p hserves => hserves.choose_spec.2.name
  exact hnames ▸ hsublist.nodup (nodup_ports_of_ofKernel h)

/-- What an input drives is an adapter into the accelerator. -/
theorem target_of_input {p : String × Shape × Direction} (hp : p ∈ ins) {c : Connection}
    (hc : c ∈ n.connections) (hsource : c.source = .endpoint (.top p.1)) :
    ∃ index d, c.target = .port index "data_in" ∧ n.component index = .ok d ∧
      d.kind = .adapter .inward ∧ ∃ shape, ("data_in", shape) ∈ d.inputs := by
  have hmem : p ∈ n.ports := ho.ports ▸ List.mem_append_left _ (List.mem_append_right _ hp)
  rcases exists_of_forall₂ ho.ins.flip hp with ⟨a, ha, hserves⟩
  rcases opened_of_serves ha hserves with ⟨_, hopened⟩
  rcases endpoint_of_mem_ports h hmem with ⟨hwire, hendpoint⟩
  rcases ofKernel_ok h with ⟨_, _, _, _, _, _, _, hvalid⟩
  rcases checkConnection_ok ((validate_ok hvalid).1 c hc) with ⟨t, ht, hdriven, hdriver⟩
  rcases hdriver _ hsource with ⟨s, hs, _, hlines⟩
  have hshape := hs.shape.symm.trans hendpoint
  rw [(Prod.mk.inj (Except.ok.inj hshape)).1] at hlines
  have hbus := Shape.kind_eq_busStream hopened.kind hlines
  have hflows := (layered_of_ofKernel h).flows c hc _ hsource
  cases htarget : c.target with
  | top name =>
      -- An input leads to another name of the top module only if that is a wire for no stream.
      rw [htarget] at hflows ht
      cases hflows with
      | plainWire hfound hplain =>
          have hsame := ht.shape
          rw [endpoint, hfound] at hsame
          rw [(Prod.mk.inj (Except.ok.inj hsame)).1] at hplain
          exact absurd hplain (by simp [Shape.isStream, hbus])
      | renames hbefore hname _ _ =>
          have hfound := exists_wire?_iff.mpr ((hbefore.map Prod.fst).subset hname)
          exact absurd hwire (Option.ne_none_iff_exists'.mpr hfound)
  | port index name =>
      rw [htarget] at ht hdriven
      rcases Fallible.bind_ok.mp ht.shape with ⟨d, hd, hport⟩
      have hdirection : t.direction = some .input := of_decide_eq_true hdriven
      have hinput : (name, t.shape) ∈ d.inputs := by
        split at hport
        · next shape direction hfound =>
          rcases Prod.mk.inj (Except.ok.inj hport) with ⟨hshape, hsome⟩
          rw [hshape, Option.some.inj (hsome.trans hdirection)] at hfound
          exact Component.mem_inputs_of_port? hfound
        · exact absurd hport (by simp [undefinedName])
      rcases inward_of_input h (List.mem_of_getElem? (component_ok.mp hd)) hinput hbus with
        ⟨hkind, rfl⟩
      exact ⟨index, d, rfl, hd, hkind, _, hinput⟩

/-- A port for an input has one connection, which leads into its adapter. -/
theorem linksOf_input {p : String × Shape × Direction} (hp : p ∈ ins) :
    (n.linksOf p.1).length = 1 := by
  have hmem : p ∈ n.ports := ho.ports ▸ List.mem_append_left _ (List.mem_append_right _ hp)
  rcases exists_of_forall₂ ho.ins.flip hp with ⟨a, ha, hserves⟩
  rcases opened_of_serves ha hserves with ⟨_, hopened⟩
  rcases hopened.adapter with ⟨index, d, hd, hname, _, hlink⟩
  have hdirection : p.2.2 = .input := hopened.direction
  have hone := (producers_of_ofKernel h).2.1
  rcases ofKernel_ok h with ⟨_, _, _, _, _, _, _, hvalid⟩
  rw [← hopened.name] at hlink
  have hdone : (n.producers (.port index "data_in")).length = 1 := by
    rcases target_of_input h ho hp hlink rfl with ⟨i, e, htarget, he, _, shape, hinput⟩
    rcases (Endpoint.port.inj htarget).1 with rfl
    exact hone _ e he _ _ hinput
  rw [linksOf, filter_eq_singleton hlink (by simp [AdapterSide.link]) (fun c hc htop => ?_) hdone]
  · rfl
  rcases Bool.or_eq_true_iff.mp htop with htarget | hsource
  · -- An input is not driven.
    rcases checkConnection_ok ((validate_ok hvalid).1 c hc) with ⟨t, ht, hdriven, _⟩
    rw [of_decide_eq_true htarget] at ht hdriven
    have hshape := ht.shape.symm.trans (endpoint_of_mem_ports h hmem).2
    rw [(Prod.mk.inj (Except.ok.inj hshape)).2, hdirection] at hdriven
    exact absurd hdriven (by simp [canBeDriven])
  · -- The adapter that is driven is that of an argument, which has a port of this name.
    have hsource := of_decide_eq_true hsource
    rcases target_of_input h ho hp hc hsource with ⟨j, e, htarget, he, hkind, _, hinput⟩
    have hinward := mem_inwards (List.mem_of_getElem? (component_ok.mp he)) hkind
    rw [ho.inwards, List.mem_map] at hinward
    rcases hinward with ⟨b, hb, hbname⟩
    rcases exists_of_forall₂ ho.ins hb with ⟨q, _, hserves'⟩
    rcases opened_of_serves hb hserves' with ⟨_, hopened'⟩
    rcases hopened'.adapter with ⟨i, e', he', hname', _, hlink'⟩
    rcases index_eq_of_ofKernel h he' he (hname'.trans hbname) with rfl
    have hdriver : ⟨.port i "data_in", .endpoint (.top p.1)⟩ ∈ n.connections := by
      rw [← htarget, ← hsource]
      exact hc
    have hsame := (producers_eq_singleton hdriver (hone _ e he _ _ hinput)).symm.trans
      (producers_eq_singleton hlink' (hone _ e he _ _ hinput))
    have hexternal : a.external = b.external := by
      rw [← hopened.name]
      exact Endpoint.top.inj (Source.endpoint.inj (List.cons.inj hsame).1)
    rcases List.inj_on_of_nodup_map (nodup_external h ho) ha hb hexternal with rfl
    rcases index_eq_of_ofKernel h he hd (hbname.symm.trans hname.symm) with rfl
    exact htarget

end Ports

/-- An output stream gets its port from the write to it, if that calls it by its name. -/
theorem serves_of_exports {ins outs : List (String × Shape × Direction)}
    (ho : n.Openings k ins outs) {a : Argument} (ha : a ∈ k.outputStreams) {w : WriteStream}
    (hprinted : a.printed = w.stream) (hexternal : a.external = w.port)
    {p : String × Shape × Direction} (hexports : n.Exports w p) : n.Serves a p := by
  rcases hexports with ⟨written, hwritten, hopened⟩
  rcases (ho.written a ha).2 with ⟨shape, hshape, hwire⟩
  have hresult := (List.mem_filter.mp ha).2
  rw [Argument.isResult, Bool.and_eq_true] at hresult
  rw [hprinted, hwritten] at hwire
  rcases Option.some.inj hwire with rfl
  refine ⟨shape, hshape, ?_⟩
  rw [Argument.side, if_pos hresult.2, hprinted, hexternal]
  exact ⟨hopened.name, hopened.kind, hopened.elem, hopened.extents, hopened.direction,
    hopened.adapter⟩

end Netlist

/-- Every write that leaves the design is to an output stream, and calls it by a name with the
    same root. -/
def Kernel.Spelled (k : Kernel) : Prop :=
  ∀ w ∈ k.exports, ∃ a ∈ k.outputStreams, a.printed = w.stream ∧ a.external = w.port

instance (k : Kernel) : Decidable k.Spelled :=
  inferInstanceAs (Decidable (∀ w ∈ k.exports, ∃ a ∈ k.outputStreams, _ ∧ _))

/-- Streams are inputs or outputs. -/
theorem Kernel.streams_perm (k : Kernel) :
    (k.inputStreams ++ k.outputStreams).Perm (k.args.filter Argument.isStream) := by
  have hparts := List.filter_append_perm (fun a : Argument => !a.isOutput)
    (k.args.filter Argument.isStream)
  simp only [List.filter_filter, Bool.not_not] at hparts
  refine (List.Perm.of_eq (congrArg₂ (· ++ ·) ?_ ?_)).trans hparts
  · exact List.filter_congr fun a _ => Bool.and_comm ..
  · exact List.filter_congr fun a _ => Bool.and_comm ..

namespace Netlist

variable {k : Kernel} {n : Netlist}

/-- If all writes call the outputs by their names, the interface is that of the kernel. -/
theorem interface_of_spelled (h : ofKernel k = .ok n) (hspelled : k.Spelled) : n.Interface k := by
  rcases openings_of_ofKernel h with ⟨ins, outs, ho⟩
  choose! result hresult hprinted hexternal using hspelled
  have hnames : (k.exports.map result).map Argument.printed = k.exports.map WriteStream.stream := by
    rw [List.map_map]
    exact List.map_congr_left hprinted
  -- Every output is written once, so the writes that leave the design are its outputs.
  have houtputs : (k.exports.map result).Perm k.outputStreams := by
    refine (List.perm_ext_iff_of_nodup (.of_map _ (hnames ▸ ho.distinct)) (.of_map _ ho.named)).mpr
      fun a => ⟨fun hmem => ?_, fun ha => ?_⟩
    · rcases List.mem_map.mp hmem with ⟨w, hw, rfl⟩
      exact hresult w hw
    · rcases (ho.written a ha).1 with ⟨w, hw, hstream⟩
      refine List.mem_map.mpr ⟨w, hw, ?_⟩
      exact List.inj_on_of_nodup_map ho.named (hresult w hw) ha ((hprinted w hw).trans hstream)
  have hserves : List.Forall₂ n.Serves (k.exports.map result) outs := by
    have hboth := (List.forall₂_and_left k.exports outs).mpr ⟨fun w hw => hw, ho.outs⟩
    exact List.forall₂_map_left_iff.mpr (hboth.imp fun w p hw =>
      serves_of_exports ho (hresult w hw.1) (hprinted w hw.1) (hexternal w hw.1) hw.2)
  refine ⟨k.inputStreams ++ k.exports.map result, ins ++ outs,
    (houtputs.append_left _).trans k.streams_perm, ?_, List.rel_append ho.ins hserves, ?_⟩
  · rw [ho.ports, List.append_assoc]
  · exact List.forall_mem_append.mpr
      ⟨fun p hp => linksOf_input h ho hp, fun p hp => linksOf_output h ho hp⟩

/-- If the interface is that of the kernel, all writes call the outputs by their names. -/
theorem spelled_of_interface (h : ofKernel k = .ok n) (hinterface : n.Interface k) :
    k.Spelled := by
  intro w hw
  rcases openings_of_ofKernel h with ⟨ins, outs, ho⟩
  rcases hinterface with ⟨args, streams, hargs, hports, hserves, _⟩
  rcases exists_of_forall₂ ho.outs hw with ⟨p, hp, _, _, hopened⟩
  have hstreams : streams = ins ++ outs := by
    rw [ho.ports, List.append_assoc] at hports
    exact (List.append_cancel_left hports).symm
  have hmem : p ∈ streams := hstreams ▸ List.mem_append_right _ hp
  rcases exists_of_forall₂ hserves.flip hmem with ⟨a, ha, _, _, hopened'⟩
  have hstream := hargs.mem_iff.mp ha
  have houtput : a.isOutput = true := by
    have hdirection := hopened'.direction.symm.trans hopened.direction
    by_contra hinput
    rw [Argument.side, if_neg hinput] at hdirection
    exact absurd hdirection (by simp [AdapterSide.direction])
  refine ⟨a, ?_, ?_, hopened'.name.symm.trans hopened.name⟩
  · rw [List.mem_filter] at hstream
    exact List.mem_filter.mpr ⟨hstream.1, by rw [Argument.isResult, hstream.2, houtput]; rfl⟩
  -- The port has one producer, so the adapter of the argument is that of the write.
  rw [Argument.side, if_pos houtput] at hopened'
  have hone : (n.producers (.top p.1)).length = 1 := by
    refine (producers_of_ofKernel h).1 p.1 p.2.1 ?_
    have hdirection : p.2.2 = .output := hopened.direction
    rw [← hdirection]
    exact ho.ports ▸ List.mem_append_right _ hp
  rcases hopened.adapter with ⟨i, d, hd, hname, _, hlink⟩
  rcases hopened'.adapter with ⟨j, e, he, hname', _, hlink'⟩
  rw [← hopened.name] at hlink
  rw [← hopened'.name] at hlink'
  have hsame := (producers_eq_singleton hlink hone).symm.trans (producers_eq_singleton hlink' hone)
  rcases (Endpoint.port.inj (Source.endpoint.inj (List.cons.inj hsame).1)).1 with rfl
  rcases Except.ok.inj (hd.symm.trans he) with rfl
  exact (String.append_right_inj _).mp (hname'.symm.trans hname)

/-- The ports of a design are those of the bus, one for each input stream of its kernel and one
    for each write that leaves it. All but those of the bus have one connection. They are the
    interface of the kernel just if the writes call the outputs by their names. -/
theorem interface_of_ofKernel (h : ofKernel k = .ok n) :
    (∃ ins outs, n.ports = busInterface ++ ins ++ outs ∧
        List.Forall₂ n.Serves k.inputStreams ins ∧ List.Forall₂ n.Exports k.exports outs ∧
        ∀ p ∈ ins ++ outs, (n.linksOf p.1).length = 1) ∧
      (n.Interface k ↔ k.Spelled) := by
  refine ⟨?_, spelled_of_interface h, interface_of_spelled h⟩
  rcases openings_of_ofKernel h with ⟨ins, outs, ho⟩
  exact ⟨ins, outs, ho.ports, ho.ins, ho.outs, List.forall_mem_append.mpr
    ⟨fun p hp => linksOf_input h ho hp, fun p hp => linksOf_output h ho hp⟩⟩

/-- Copies a stream to its output, which it calls by some name. -/
def relaying (target : String) : Kernel :=
  ⟨"relay", [.stream "in.stencil.stream" (.uint 8) [1] [4] false,
    .stream "out.stencil.stream" (.uint 8) [1] [4] true],
    copying "x" "in.stencil.stream" none target⟩

/-- If it calls it by its own name, both streams have a port of their names. -/
theorem interface_of_ofKernel_relaying :
    ∃ n, ofKernel (relaying "out.stencil.stream") = .ok n ∧
      n.ports.map Prod.fst = busInterface.map Prod.fst ++ ["in", "out"] ∧
      n.Interface (relaying "out.stencil.stream") := by
  have haccepted : (ofKernel (relaying "out.stencil.stream")).map (fun n => n.ports.map Prod.fst)
      = .ok (busInterface.map Prod.fst ++ ["in", "out"]) := by
    decide +kernel
  have hspelled : (relaying "out.stencil.stream").Spelled := by decide +kernel
  rcases Fallible.exists_of_map haccepted with ⟨n, hn, hports⟩
  exact ⟨n, hn, hports, (interface_of_ofKernel hn).2.mpr hspelled⟩

/-- If it calls it by a name that is only printed the same, the port of the output is called
    otherwise. -/
theorem exists_misnamed_port :
    ∃ n, ofKernel (relaying "out_stencil.stream") = .ok n ∧
      n.ports.map Prod.fst = busInterface.map Prod.fst ++ ["in", "out_stencil"] ∧
      ¬n.Interface (relaying "out_stencil.stream") := by
  have haccepted : (ofKernel (relaying "out_stencil.stream")).map (fun n => n.ports.map Prod.fst)
      = .ok (busInterface.map Prod.fst ++ ["in", "out_stencil"]) := by
    decide +kernel
  have hmisspelled : ¬(relaying "out_stencil.stream").Spelled := by decide +kernel
  rcases Fallible.exists_of_map haccepted with ⟨n, hn, hports⟩
  exact ⟨n, hn, hports, fun hinterface => hmisspelled (spelled_of_interface hn hinterface)⟩

end Netlist

end StencilRtl
