import StencilRtl.Proofs.Netlist.Producers

/-!
# Orderly Constructions

Every operation on streams keeps the producers of a design in order.

What an operation does to a design is a sequence of declarations and connections, and
whether a connection is in order depends on the declarations before it. So an operation is
described by what holds before it and what holds behind it, and the descriptions are put
together in the order of its steps. Steps that fail say nothing.

A component that is attached to the slave interface, and an adapter or a stage, is added
first and connected input by input. In between, the design knows it as a fresh component
and remembers which of its inputs are taken.

A nest keeps the shape and the name of the stream it writes until it ends. That the shape
is a stream's, and the stream one of those that are written, is therefore a part of what
is kept.

## Main definitions

* `Construction.Ensures`: What holds before and behind a step.
* `Construction.Orderly`: The design is tidy, and so is what the nest writes.

## Theorems

* `orderly_addStateful`, `orderly_addQueued`: Components and queues.
* `orderly_addArgument`, `orderly_lineBuffer`, `orderly_dispatch`, `orderly_addStage`: Whole
  operations.
-/

namespace StencilRtl

namespace Component

theorem port?_ofKind {name : String} {kind : ComponentKind} (h : kind.isStateful = true) :
    (ofKind name kind).port? startPort = some (.bit, .input) := by
  rw [ofKind, if_pos h]
  rfl

theorem instanceName_ofKind (name : String) (kind : ComponentKind) :
    (ofKind name kind).instanceName = name := by
  unfold ofKind
  split <;> rfl

/-- A component with one port in each direction has these and those of its kind. -/
theorem extends_of_ports {instanceName input output : String} {kind : ComponentKind}
    {inner outer : Shape} {c d : Component}
    (hinput : (ofKind instanceName kind).addInput input inner = .ok c)
    (houtput : c.addOutput output outer = .ok d) :
    d.instanceName = instanceName ∧ (ofKind instanceName kind).Extends d ∧
      d.port? input = some (inner, .input) ∧ d.port? output = some (outer, .output) := by
  have hname : d.instanceName = instanceName := by
    rw [(addOutput_ok houtput).2, (addInput_ok hinput).2]
    exact instanceName_ofKind _ _
  refine ⟨hname, (Extends.addInput hinput).trans (.addOutput houtput), ?_, ?_⟩
  · refine Extends.addOutput houtput _ _ ?_
    rw [port?_addInput hinput, if_pos rfl]
  · rw [port?_addOutput houtput, if_pos rfl]

/-- A component with one port more in each direction than its kind is born with. -/
theorem eq_of_ports {instanceName input output : String} {kind : ComponentKind}
    {inner outer : Shape} {c d : Component}
    (hinput : (ofKind instanceName kind).addInput input inner = .ok c)
    (houtput : c.addOutput output outer = .ok d) :
    d = ⟨instanceName, kind, (ofKind instanceName kind).inputs ++ [(input, inner)],
      (ofKind instanceName kind).outputs ++ [(output, outer)]⟩ := by
  rw [(addOutput_ok houtput).2, (addInput_ok hinput).2, instanceName_ofKind, kind_ofKind]

/-- Several inputs more. -/
theorem addInputs_eq {c d : Component} {ports : List (String × Shape)}
    (h : c.addInputs ports = .ok d) : d = { c with inputs := c.inputs ++ ports } := by
  induction ports generalizing c with
  | nil =>
      rw [← Except.ok.inj h, List.append_nil]
  | cons p rest ih =>
      rw [addInputs, List.foldlM_cons] at h
      rcases Fallible.bind_ok.mp h with ⟨next, hnext, hrest⟩
      rw [ih hrest, (addInput_ok hnext).2, List.append_assoc, List.singleton_append]

/-- Inputs that were declared together have different names, which are new. -/
theorem addInputs_ok {c d : Component} {ports : List (String × Shape)}
    (h : c.addInputs ports = .ok d) :
    c.Extends d ∧ (ports.map Prod.fst).Nodup ∧
      ∀ p ∈ ports, c.port? p.1 = none ∧ d.port? p.1 = some (p.2, .input) := by
  induction ports generalizing c with
  | nil =>
      rcases Except.ok.inj h with rfl
      exact ⟨.refl c, List.nodup_nil, List.forall_mem_nil _⟩
  | cons p rest ih =>
      rw [addInputs, List.foldlM_cons] at h
      rcases Fallible.bind_ok.mp h with ⟨e, he, hrest⟩
      rcases ih hrest with ⟨hextends, hnodup, hall⟩
      -- The first port is found in all that follows, where the others were still new.
      have hfirst : e.port? p.1 = some (p.2, .input) := by
        rw [port?_addInput he, if_pos rfl]
      refine ⟨(Extends.addInput he).trans hextends, ?_, ?_⟩
      · refine List.nodup_cons.mpr ⟨fun hmem => ?_, hnodup⟩
        rcases List.mem_map.mp hmem with ⟨q, hq, hname⟩
        exact absurd ((hall q hq).1.symm.trans (hname ▸ hfirst)) (by simp)
      · refine List.forall_mem_cons.mpr ⟨⟨(addInput_ok he).1, hextends _ _ hfirst⟩,
          fun q hq => ⟨?_, (hall q hq).2⟩⟩
        cases hold : c.port? q.1 with
        | none => rfl
        | some r =>
            exact absurd ((hall q hq).1.symm.trans (Extends.addInput he _ _ hold)) (by simp)

end Component

namespace Construction

/-- The component of a stage is told by its plan. -/
theorem stageComponent_eq {plan : StagePlan} {stage : Component}
    (h : stageComponent plan = .ok stage) : stage = ⟨plan.moduleName, .stage plan,
      (startPort, .bit) :: (plan.inputs.map (fun i => (i.port, i.shape)) ++ plan.params),
      [(donePort, .bit), (plan.output.port, plan.output.shape)]⟩ := by
  rcases Fallible.bind_ok.mp h with ⟨s, hs, h⟩
  rcases Fallible.bind_ok.mp h with ⟨s', hs', h⟩
  rw [(Component.addOutput_ok h).2, Component.addInputs_eq hs', Component.addInputs_eq hs]
  rfl

/-- The outputs of a router are numbered. -/
theorem outputs_of_addOutputs {consumers : List (DispatchBox × Nat)} {shape : Shape}
    {r r' : Component} {c c' : Construction}
    (h : consumers.foldlM (fun r (x : DispatchBox × Nat) =>
        (liftM (r.addOutput s!"out_{x.2}" shape) : Constructing Component)) r c = .ok (r', c')) :
    c' = c ∧ r' = { r with
      outputs := r.outputs ++ consumers.map fun x => (s!"out_{x.2}", shape) } := by
  induction consumers generalizing r c with
  | nil =>
      rcases Except.ok.inj h with ⟨⟩
      exact ⟨rfl, by rw [List.map_nil, List.append_nil]⟩
  | cons x rest ih =>
      rw [List.foldlM_cons] at h
      rcases lift_bind_ok.mp h with ⟨next, hadd, hrest⟩
      rcases ih hrest with ⟨hsame, hnext⟩
      refine ⟨hsame, ?_⟩
      rw [hnext, (Component.addOutput_ok hadd).2, List.map_cons, List.append_assoc,
        List.singleton_append]

/-- If `P` holds before a step that returns, `Q` holds of its result behind it. -/
def Ensures {α : Type} (P : Construction → Prop) (m : Constructing α)
    (Q : α → Construction → Prop) : Prop :=
  ∀ c a c', P c → m c = .ok (a, c') → Q a c'

namespace Ensures

variable {α β : Type} {P : Construction → Prop} {Q : α → Construction → Prop}
  {S : β → Construction → Prop}

theorem bind {m : Constructing α} {f : α → Constructing β} (hm : Ensures P m Q)
    (hf : ∀ a, Ensures (Q a) (f a) S) : Ensures P (m >>= f) S := by
  intro c b c' hP h
  rcases bind_ok.mp h with ⟨a, d, ha, hb⟩
  exact hf a d b c' (hm c a d hP ha) hb

theorem pure {a : α} (h : ∀ c, P c → Q a c) : Ensures P (Pure.pure a : Constructing α) Q := by
  intro c b c' hP hrun
  rcases pure_ok.mp hrun with ⟨rfl, rfl⟩
  exact h _ hP

theorem lift {x : Fallible α} (h : ∀ a c, x = .ok a → P c → Q a c) :
    Ensures P (liftM x : Constructing α) Q := by
  intro c a c' hP hrun
  rcases lift_ok.mp hrun with ⟨hx, rfl⟩
  exact h a _ hx hP

/-- A step that fails ensures anything. -/
theorem fails {x : Fallible α} (h : ∀ a, x ≠ .ok a) : Ensures P (liftM x : Constructing α) Q :=
  lift fun a _ hx => absurd hx (h a)

theorem lift_bind {x : Fallible α} {f : α → Constructing β}
    (hf : ∀ a, x = .ok a → Ensures P (f a) S) : Ensures P (liftM x >>= f) S := by
  intro c b c' hP h
  rcases lift_bind_ok.mp h with ⟨a, hx, hb⟩
  exact hf a hx _ b c' hP hb

theorem get_bind {f : Construction → Constructing β}
    (hf : ∀ c, P c → Ensures (fun d => d = c) (f c) S) : Ensures P (get >>= f) S := by
  intro c b c' hP h
  exact hf c hP c b c' rfl (get_bind_ok.mp h)

theorem weaken {P' : Construction → Prop} {Q' : α → Construction → Prop} {m : Constructing α}
    (h : Ensures P m Q) (hP : ∀ c, P' c → P c) (hQ : ∀ a c, Q a c → Q' a c) :
    Ensures P' m Q' :=
  fun c a c' hP' hrun => hQ a c' (h c a c' (hP c hP') hrun)

/-- What follows from what holds before a step need not be told again. -/
theorem assume {m : Constructing α} {p : Prop} (hp : ∀ c, P c → p) (h : p → Ensures P m Q) :
    Ensures P m Q :=
  fun c a c' hP hrun => h (hp c hP) c a c' hP hrun

/-- A step may be passed over. -/
theorem passes {m : Constructing α} : Ensures P m fun _ _ => True := fun _ _ _ _ _ => trivial

theorem change {f : Construction → Construction} {Q : Unit → Construction → Prop}
    (h : ∀ c, P c → Q () (f c)) : Ensures P (modify f : Constructing Unit) Q := by
  intro c a c' hP hrun
  rcases Except.ok.inj hrun with ⟨⟩
  exact h c hP

theorem forM {xs : List α} {f : α → Constructing Unit}
    (hf : ∀ x ∈ xs, Ensures P (f x) fun _ => P) : Ensures P (xs.forM f) fun _ => P := by
  induction xs with
  | nil => exact pure fun _ hP => hP
  | cons x rest ih =>
      exact (hf x (List.mem_cons_self ..)).bind fun _ =>
        ih fun y hy => hf y (List.mem_cons_of_mem _ hy)

theorem connect {target source : Endpoint} {Q : Unit → Construction → Prop}
    (h : ∀ c, P c → Q () { c with netlist := c.netlist.connect target (.endpoint source) }) :
    Ensures P (Construction.connect target source) Q :=
  change h

theorem tryUpdate {f : Netlist → Fallible Netlist} {Q : Unit → Construction → Prop}
    (h : ∀ c n, P c → f c.netlist = .ok n → Q () { c with netlist := n }) :
    Ensures P (tryUpdate f) Q := by
  intro c u c' hP hrun
  rcases tryUpdate_ok hrun with ⟨n, hn, rfl⟩
  exact h c n hP hn

/-- The wire of a stream is there before a queue drives it, new or from before. -/
theorem addQueued {stream : String} {shape : Shape} {source : Endpoint}
    {P' : Construction → Prop} {Q : Unit → Construction → Prop}
    (hwire : Ensures P (addWire (wireName stream) shape) fun _ => P')
    (hthere : ∀ c s, P c → c.netlist.wire? (wireName stream) = some s → P' c)
    (hdrive : Ensures P' (driveQueued stream shape source) Q) :
    Ensures P (addQueued stream shape source) Q := by
  intro c u c' hP h
  rcases addQueued_ok h with ⟨d, hd, hrun⟩ | ⟨⟨s, hs⟩, hrun⟩
  · exact hdrive d u c' (hwire c () d hP hd) hrun
  · exact hdrive c u c' (hthere c s hP hs) hrun

theorem slavePort {name : String} {Q : Endpoint → Construction → Prop}
    (h : ∀ c, P c → Q (.port c.slave name) c) : Ensures P (slavePort name) Q :=
  get_bind fun c hP => pure fun _ hd => hd ▸ h c hP

theorem streamShape {stream : String} : Ensures P (streamShape stream) fun shape c => P c ∧
    c.netlist.wire? (wireName stream) = some shape ∧ shape.isStream = true := by
  intro c shape c' hP hrun
  rcases streamShape_ok hrun with ⟨rfl, hwire, hstream⟩
  exact ⟨hP, hwire, hstream⟩

end Ensures

open Ensures

/-- The design is tidy, it has a slave interface, and what the nest around the statement
    writes is a stream, and one of those that are written. -/
structure Orderly (aliased written : String → Prop) (owed : List String) (c : Construction) :
    Prop where
  tidy : c.netlist.Tidy aliased written owed
  slave : ∃ s, c.netlist.component c.slave = .ok s
  nest : ∀ nest ∈ c.nest, ∀ output ∈ nest.output,
    output.port.shape.isStream = true ∧ written output.port.port

variable {aliased written : String → Prop} {owed : List String}

namespace Orderly

variable {c : Construction}

/-- The design may be replaced by one that has as much and is tidy as well. -/
theorem of_netlist (h : Orderly aliased written owed c) {n : Netlist} {owed' : List String}
    (htidy : n.Tidy aliased written owed') (hext : c.netlist.Extends n) :
    Orderly aliased written owed' { c with netlist := n } where
  tidy := htidy
  slave := by
    rcases h.slave with ⟨s, hs⟩
    rcases hext.component _ s hs with ⟨s', hs', _⟩
    exact ⟨s', hs'⟩
  nest := h.nest

theorem grow (h : Orderly aliased written owed c) {n : Netlist} (hext : c.netlist.Extends n)
    (hconnections : n.connections = c.netlist.connections) (hports : n.ports = c.netlist.ports)
    (hwires : n.wires = c.netlist.wires) :
    Orderly aliased written owed { c with netlist := n } :=
  h.of_netlist (h.tidy.grow hext hconnections hports hwires) hext

theorem mono {aliased' written' : String → Prop} (h : Orderly aliased written owed c)
    (ha : ∀ s, aliased s → aliased' s) (hw : ∀ s, written s → written' s) :
    Orderly aliased' written' owed c where
  tidy := h.tidy.mono ha hw
  slave := h.slave
  nest nest hnest output houtput :=
    ⟨(h.nest nest hnest output houtput).1, hw _ (h.nest nest hnest output houtput).2⟩

end Orderly

/-- A port more of the slave interface changes nothing. -/
theorem orderly_updateSlave {change : Component → Fallible Component}
    (hchange : ∀ s s', change s = .ok s' →
      s'.instanceName = s.instanceName ∧ s'.kind = s.kind ∧ s.Extends s') :
    Ensures (Orderly aliased written owed) (updateSlave change) fun _ =>
      Orderly aliased written owed := by
  intro c u c' ho h
  rcases updateSlave_ok h with ⟨s, s', hs, hs', rfl⟩
  rcases hchange s s' hs' with ⟨hname, hkind, hextends⟩
  exact ho.grow (.setComponent hs hname hkind hextends) rfl rfl rfl

/-- The next input of a component that has not been connected. -/
theorem orderly_connectFresh {component : Component} {index : Nat} {taken : List String}
    {name : String} {source : Endpoint} (hport : ∃ p, component.port? name = some p)
    (hname : name ∉ taken) :
    Ensures (fun c => Orderly aliased written owed c ∧ c.netlist.Fresh index component taken)
      (connect (.port index name) source)
      fun _ c => Orderly aliased written owed c ∧
        c.netlist.Fresh index component (name :: taken) := by
  refine .connect fun c ⟨ho, hfresh⟩ => ?_
  rcases ho.tidy.connectFresh hfresh (.endpoint source) hport hname with ⟨htidy, hfresh'⟩
  exact ⟨ho.of_netlist htidy (.connect _ _), hfresh'⟩

/-- Inputs with different names, one after the other. -/
theorem orderly_connectInputs {α : Type} {component : Component} {index : Nat} {xs : List α}
    {name : α → String} {source : α → Endpoint} {taken : List String}
    (hports : ∀ x ∈ xs, ∃ p, component.port? (name x) = some p) (hnodup : (xs.map name).Nodup)
    (hnew : ∀ x ∈ xs, name x ∉ taken) :
    Ensures (fun c => Orderly aliased written owed c ∧ c.netlist.Fresh index component taken)
      (xs.forM fun x => connect (.port index (name x)) (source x))
      fun _ c => Orderly aliased written owed c ∧
        c.netlist.Fresh index component ((xs.map name).reverse ++ taken) := by
  induction xs generalizing taken with
  | nil => exact .pure fun _ h => h
  | cons x rest ih =>
      rw [List.map_cons, List.nodup_cons] at hnodup
      rw [List.map_cons, List.reverse_cons, List.append_assoc]
      refine (orderly_connectFresh (hports x (List.mem_cons_self ..))
        (hnew x (List.mem_cons_self ..))).bind fun _ => ?_
      refine ih (fun y hy => hports y (List.mem_cons_of_mem _ hy)) hnodup.2 fun y hy => ?_
      rw [List.mem_cons, not_or]
      refine ⟨fun heq => hnodup.1 ?_, hnew y (List.mem_cons_of_mem _ hy)⟩
      exact heq ▸ List.mem_map_of_mem hy

/-- A component that is attached to the slave interface: a start and a done are connected,
    and nothing else of the component. -/
theorem orderly_addStateful {component : Component}
    (hstart : ∃ p, component.port? startPort = some p) :
    Ensures (Orderly aliased written owed) (addStateful component) fun index c =>
      Orderly aliased written owed c ∧ c.netlist.Fresh index component [startPort] := by
  intro c index c' ho h
  rcases addStateful_inv h with ⟨n, s, s', hadd, hs, hs', rfl⟩
  rcases ho.tidy.addComponent hadd with ⟨htidy, hfresh⟩
  -- The slave interface was there before the component, so it is another one.
  have hother : index ≠ c.slave := by
    rcases ho.slave with ⟨s₀, hs₀⟩
    rw [Netlist.component_ok] at hs₀
    rw [(Netlist.addComponent_ok hadd).1]
    exact Nat.ne_of_gt (List.getElem?_eq_some_iff.mp hs₀).1
  rcases Component.addInput_ok hs' with ⟨hnone, hdeclared⟩
  have hext : n.Extends (n.setComponent c.slave s') :=
    .setComponent hs (by rw [hdeclared]) (by rw [hdeclared]) (.addInput hs')
  have hundone : n.producers (.port c.slave (component.instanceName ++ doneEnding)) = [] := by
    refine htidy.producers_eq_nil fun hknown => ?_
    rcases Netlist.knows_port.mp hknown with ⟨r, p, hr, hp⟩
    rcases Except.ok.inj (hs.symm.trans hr) with rfl
    exact absurd (hnone.symm.trans hp) (by simp)
  have hknown : (n.setComponent c.slave s').Knows
      (.port c.slave (component.instanceName ++ doneEnding)) := by
    refine Netlist.knows_port.mpr ⟨s', (.bit, .input), Netlist.component_setComponent hs, ?_⟩
    rw [Component.port?_addInput hs', if_pos rfl]
  have hset := htidy.grow hext rfl rfl rfl
  have hfresh' : (n.setComponent c.slave s').Fresh index component [] := by
    refine ⟨?_, hfresh.free⟩
    have hcomponent := hfresh.component
    rw [Netlist.component_ok] at hcomponent ⊢
    rw [Netlist.setComponent, List.getElem?_set_ne (Ne.symm hother), hcomponent]
  rcases hset.connectFresh hfresh' (.endpoint (.port c.slave startOutput)) hstart
    List.not_mem_nil with ⟨hstarted, hfresh''⟩
  have hapart : ∀ name, Endpoint.port index name ≠ .port c.slave
      (component.instanceName ++ doneEnding) := fun _ heq => hother (Endpoint.port.inj heq).1
  refine ⟨ho.of_netlist ?_ ?_, hfresh''.component, fun name hname => ?_⟩
  · refine hstarted.connect _ ((Netlist.Extends.connect _ _).knows hknown)
      (fun _ heq => by cases heq) ?_
    rw [Netlist.producers_connect_of_ne (hapart _)]
    exact hundone
  · exact (((Netlist.Extends.addComponent hadd).trans hext).trans (.connect _ _)).trans
      (.connect _ _)
  · rw [Netlist.producers_connect_of_ne (Ne.symm (hapart name))]
    exact hfresh''.free name hname

/-- What has been done when a wire that is there has been driven by a queue. -/
theorem driveQueued_inv {stream : String} {shape : Shape} {source : Endpoint} {u : Unit}
    {c c' : Construction} (h : driveQueued stream shape source c = .ok (u, c')) :
    ∃ q m index,
      q.instanceName = "FIFO_" ++ stream ∧ q.kind = .queue (max shape.fifoDepth 1) ∧
      q.port? "in" = some (shape, .input) ∧ q.port? "out" = some (shape, .output) ∧
      c.netlist.addComponent q = .ok (m, index) ∧
      c' = { c with
        netlist := (m.connect (.port index "in") (.endpoint source)).connect
          (.top (wireName stream)) (.endpoint (.port index "out")) } := by
  rcases lift_bind_ok.mp h with ⟨q, hinput, h₁⟩
  rcases lift_bind_ok.mp h₁ with ⟨q', houtput, h₂⟩
  rcases bind_ok.mp h₂ with ⟨index, d₃, hadd, h₃⟩
  rcases addComponent_inv hadd with ⟨m, hm, rfl⟩
  rcases Except.ok.inj h₃ with ⟨⟩
  rcases Component.extends_of_ports hinput houtput with ⟨hname, _, hfirst, hsecond⟩
  exact ⟨q', m, index, hname, Component.kind_of_ports hinput houtput, hfirst, hsecond, hm, rfl⟩

/-- What has been done when a stream has been driven through a queue. -/
theorem addQueued_inv {stream : String} {shape : Shape} {source : Endpoint} {u : Unit}
    {c c' : Construction} (h : addQueued stream shape source c = .ok (u, c')) :
    ∃ n q m index,
      (c.netlist.addWire (wireName stream) shape = .ok n ∨
        n = c.netlist ∧ ∃ s, n.wire? (wireName stream) = some s) ∧
      q.instanceName = "FIFO_" ++ stream ∧ q.kind = .queue (max shape.fifoDepth 1) ∧
      q.port? "in" = some (shape, .input) ∧ q.port? "out" = some (shape, .output) ∧
      n.addComponent q = .ok (m, index) ∧
      c' = { c with
        netlist := (m.connect (.port index "in") (.endpoint source)).connect
          (.top (wireName stream)) (.endpoint (.port index "out")) } := by
  rcases addQueued_ok h with ⟨d, hwire, hdrive⟩ | ⟨hthere, hdrive⟩
  · rcases tryUpdate_ok hwire with ⟨n, hn, rfl⟩
    rcases driveQueued_inv hdrive with ⟨q, m, index, hparts⟩
    exact ⟨n, q, m, index, .inl hn, hparts⟩
  · rcases driveQueued_inv hdrive with ⟨q, m, index, hparts⟩
    exact ⟨_, q, m, index, .inr ⟨rfl, hthere⟩, hparts⟩

/-- A wire is driven by a queue, whatever else drives it already. The stream is one of those
    that are written, unless no wire that was given its name carries another stream. -/
theorem orderly_addQueued {stream : String} {shape : Shape} {source : Endpoint}
    (hstream : shape.isStream = true) (hwritten : written stream ∨ ¬aliased stream) :
    Ensures (Orderly aliased written owed) (addQueued stream shape source) fun _ =>
      Orderly aliased written owed := by
  intro c u c' ho h
  rcases addQueued_inv h with ⟨n, q, m, index, hdeclared, hname, hkind, hin, hout, hadd, rfl⟩
  have hwire : n.Tidy aliased written owed ∧ c.netlist.Extends n ∧
      ∃ s, n.wire? (wireName stream) = some s := by
    rcases hdeclared with hnew | ⟨rfl, s, hs⟩
    · rcases ho.tidy.addWire hnew with ⟨htidy, hfound, _⟩
      exact ⟨htidy, .addWire hnew, shape, hfound⟩
    · exact ⟨ho.tidy, .refl _, s, hs⟩
  rcases hwire with ⟨htidy, hext, s, hs⟩
  -- No instance had the name of the queue, so the wire has no queue yet.
  have hfed : ∃ origin, n.Fed aliased written stream s origin none := by
    rcases htidy.fed _ s hs with ⟨other, origin, queue, heq, hfed⟩
    rcases wireName_inj heq with rfl
    cases queue with
    | none => exact ⟨origin, hfed⟩
    | some r =>
        have hfree := Netlist.addComponent_new hadd
        rw [hname] at hfree
        exact absurd (hfed.queued r rfl).1 (Netlist.not_isQueue_of_find? hfree r)
  rcases hfed with ⟨origin, hfed⟩
  rcases htidy.addComponent hadd with ⟨htidy', hfresh⟩
  rcases htidy'.connectFresh hfresh (.endpoint source) ⟨_, hin⟩ List.not_mem_nil
    with ⟨htidy'', hfresh'⟩
  have hext' := (Netlist.Extends.addComponent hadd).trans
    (.connect (.port index "in") (.endpoint source))
  refine ho.of_netlist ?_ ((hext.trans hext').trans (.connect _ _))
  refine htidy''.connectQueue (hext'.wire _ _ hs) (hfed.extend hext' ?_) ?_ hwritten
  · rw [Netlist.producers_connect_of_ne (by simp)]
    rcases Netlist.addComponent_ok hadd with ⟨_, rfl⟩
    rfl
  · exact ⟨index, q, _, shape, rfl, hfresh'.component, hname, hkind, hout, hstream⟩

/-- A component that is no slave interface, with one port in each direction, and attached. -/
theorem orderly_addAttached {instanceName input output : String} {kind : ComponentKind}
    {inner outer : Shape} {a b : Component} {S : Construction → Prop}
    {rest : Nat → Constructing Unit} (hkind : kind.isStateful = true)
    (hinput : (Component.ofKind instanceName kind).addInput input inner = .ok a)
    (houtput : a.addOutput output outer = .ok b)
    (hrest : ∀ index, Ensures (fun c => Orderly aliased written owed c ∧
      c.netlist.Fresh index b [startPort]) (rest index) fun _ => S) :
    Ensures (Orderly aliased written owed) (addStateful b >>= rest) fun _ => S := by
  rcases Component.extends_of_ports hinput houtput with ⟨_, hextends, _⟩
  exact (orderly_addStateful ⟨_, hextends _ _ (Component.port?_ofKind hkind)⟩).bind hrest

theorem orderly_addComponent {component : Component} :
    Ensures (Orderly aliased written owed) (addComponent component) fun index c =>
      Orderly aliased written owed c ∧ c.netlist.Fresh index component [] := by
  intro c index c' ho h
  rcases addComponent_inv h with ⟨n, hn, rfl⟩
  rcases ho.tidy.addComponent hn with ⟨htidy, hfresh⟩
  exact ⟨ho.of_netlist htidy (.addComponent hn), hfresh⟩

/-- A wire is declared. -/
theorem orderly_addWire {stream : String} {shape : Shape} :
    Ensures (Orderly aliased written owed) (addWire (wireName stream) shape) fun _ c =>
      Orderly aliased written owed c ∧ c.netlist.wire? (wireName stream) = some shape ∧
        c.netlist.producers (.top (wireName stream)) = [] := by
  refine .tryUpdate fun c n ho hn => ?_
  rcases ho.tidy.addWire hn with ⟨htidy, hwire, hfree⟩
  exact ⟨ho.of_netlist htidy (.addWire hn), hwire, hfree⟩

/-- A wire that has been declared is connected. -/
theorem orderly_connectOrigin {stream : String} {shape : Shape} {source : Endpoint} :
    Ensures (fun c => Orderly aliased written owed c ∧
        c.netlist.wire? (wireName stream) = some shape ∧
        c.netlist.producers (.top (wireName stream)) = [] ∧
        (shape.isStream = true → aliased stream ∧
          c.netlist.IsOtherStream stream (.endpoint source)))
      (connect (.top (wireName stream)) source) fun _ => Orderly aliased written owed :=
  .connect fun _ ⟨ho, hwire, hfree, hjoined⟩ =>
    ho.of_netlist (ho.tidy.connectOrigin hwire hfree hjoined) (.connect _ _)

/-- A port of the top module is declared. An output is owed a producer. -/
theorem orderly_addPort {component : Component} {index : Nat} {taken : List String}
    {name : String} {shape : Shape} {direction : Direction} :
    Ensures (fun c => Orderly aliased written owed c ∧ c.netlist.Fresh index component taken)
      (addPort name shape direction) fun _ c =>
        Orderly aliased written (name :: owed) c ∧
          (direction = .input → Orderly aliased written owed c) ∧
          c.netlist.Fresh index component taken ∧ c.netlist.Knows (.top name) ∧
          c.netlist.wire? name = none ∧ c.netlist.producers (.top name) = [] := by
  refine .tryUpdate fun c n ⟨ho, hfresh⟩ hn => ?_
  have hext := Netlist.Extends.addPort hn
  rcases ho.tidy.addPort hn with ⟨howed, hinput, hwire, hfree⟩
  refine ⟨ho.of_netlist howed hext, fun h => ho.of_netlist (hinput h) hext, ?_, ?_, hwire, hfree⟩
  · rcases Netlist.addPort_ok hn with rfl
    exact ⟨hfresh.component, hfresh.free⟩
  · rw [Netlist.knows_top, Netlist.declares, Netlist.port?_addPort hn]
    rfl

/-- The wire of a parameter is driven by the slave interface. -/
theorem orderly_addParameter (arg : Argument) (shape : Shape) :
    Ensures (Orderly aliased written owed) (addParameter arg shape) fun _ =>
      Orderly aliased written owed := by
  intro c u c' ho hrun
  rcases addParameter_ok hrun with ⟨hplain, r, d, e, _, houtput, hwire, rfl⟩
  have hplaced : Orderly aliased written owed
      { c with netlist := { c.netlist with registers := r.1 } } :=
    ho.grow ⟨fun _ d hd => ⟨d, hd, rfl, rfl, .refl d⟩, fun _ _ h => h, fun _ _ h => h⟩ rfl rfl rfl
  have hshown : Orderly aliased written owed d := by
    refine orderly_updateSlave (fun s s' hs => ?_) _ () d hplaced houtput
    have hsame := (Component.addOutput_ok hs).2
    exact ⟨by rw [hsame], by rw [hsame], .addOutput hs⟩
  -- The wire is new, so that it has no producer before the slave interface drives it.
  rcases orderly_addWire d () e hshown hwire with ⟨hwired, hfound, hfree⟩
  exact orderly_connectOrigin e () _
    ⟨hwired, hfound, hfree, fun hstream => absurd hstream (by simp [hplain])⟩ rfl

/-- The wire of an input stream is driven by a queue behind its adapter. -/
theorem orderly_addInputStream (arg : Argument) (shape : Shape) (hnone : ∀ s, ¬aliased s) :
    Ensures (Orderly aliased written owed) (addInputStream arg shape) fun _ =>
      Orderly aliased written owed := by
  refine .lift_bind fun a ha => .lift_bind fun b hb => ?_
  rcases Component.extends_of_ports ha hb with ⟨_, _, hin, _⟩
  refine orderly_addAttached rfl ha hb fun index => ?_
  refine orderly_addPort.bind fun _ => ?_
  refine .bind (Q := fun _ => Orderly aliased written owed) ?_ fun _ =>
    orderly_addQueued rfl (.inr (hnone _))
  refine (orderly_connectFresh ⟨_, hin⟩ (by decide)).weaken
    (fun c h => ⟨h.2.1 rfl, h.2.2.1⟩) fun _ _ h => h.1

/-- The wire of an output stream is driven where it is written. -/
theorem orderly_addOutputStream (arg : Argument) (shape : Shape) :
    Ensures (Orderly aliased written owed) (addOutputStream arg shape) fun _ =>
      Orderly aliased written owed := by
  refine .bind (Q := fun _ => Orderly aliased written owed)
    (.change fun c ho => ⟨ho.tidy, ho.slave, ho.nest⟩) fun _ => ?_
  exact orderly_addWire.weaken (fun _ h => h) fun _ _ h => h.1

theorem orderly_addArgument (arg : Argument) (hnone : ∀ s, ¬aliased s) :
    Ensures (Orderly aliased written owed) (addArgument arg) fun _ =>
      Orderly aliased written owed := by
  refine .lift_bind fun shape _ => ?_
  split
  · exact orderly_addParameter arg shape
  split
  · exact .fails fun _ => by simp [unsupported]
  split
  · exact orderly_addOutputStream arg shape
  · exact orderly_addInputStream arg shape hnone

/-- The output of a line buffer is a stream that is written. -/
theorem orderly_lineBuffer (call : LineBufferCall) (hwritten : written call.output) :
    Ensures (Orderly aliased written owed) (lineBuffer call) fun _ =>
      Orderly aliased written owed := by
  refine .bind .streamShape fun input => .bind .streamShape fun output => ?_
  split
  · exact .fails fun _ => by simp [unsupported]
  refine .lift_bind fun a ha => .lift_bind fun b hb => ?_
  rcases Component.extends_of_ports ha hb with ⟨_, _, hin, _⟩
  refine .assume (fun _ h => h.2.2) fun hstream => ?_
  refine .bind (Q := fun index c => Orderly aliased written owed c ∧ c.netlist.Fresh index b [])
    (.weaken orderly_addComponent (fun _ h => h.1.1) fun _ _ h => h) fun index => ?_
  refine (orderly_connectFresh ⟨_, hin⟩ List.not_mem_nil).bind fun _ => ?_
  exact (orderly_addQueued hstream (.inl hwritten)).weaken (fun _ h => h.1) fun _ _ h => h

/-- No stream has the name under which a consumer finds its part. -/
theorem ne_consumerStream (stream consumer : String) : stream ≠ consumerStream stream consumer := by
  intro heq
  have hlength := congrArg String.length heq
  rw [consumerStream, String.length_append, String.length_append] at hlength
  have hmiddle : "_to_".length = 4 := rfl
  omega

/-- A wire that is another name of a stream carries that stream. -/
theorem orderly_aliasStream {stream consumer : String} {shape : Shape}
    (hstream : shape.isStream = true) (haliased : aliased (consumerStream stream consumer)) :
    Ensures (fun c => Orderly aliased written owed c ∧
        c.netlist.wire? (wireName stream) = some shape)
      (aliasStream stream consumer shape) fun _ => Orderly aliased written owed := by
  refine .bind (Q := fun _ c => Orderly aliased written owed c ∧
    c.netlist.wire? (wireName (consumerStream stream consumer)) = some shape ∧
    c.netlist.producers (.top (wireName (consumerStream stream consumer))) = [] ∧
    (shape.isStream = true → aliased (consumerStream stream consumer) ∧
      c.netlist.IsOtherStream (consumerStream stream consumer)
        (.endpoint (.top (wireName stream))))) ?_ fun _ => orderly_connectOrigin
  refine .tryUpdate fun c n ⟨ho, hwire⟩ hn => ?_
  have hext := Netlist.Extends.addWire hn
  rcases ho.tidy.addWire hn with ⟨htidy, hnew, hfree⟩
  exact ⟨ho.of_netlist htidy hext, hnew, hfree, fun _ =>
    ⟨haliased, stream, shape, rfl, ne_consumerStream stream consumer, hext.wire _ _ hwire,
      hstream⟩⟩

/-- A router's outputs are behind its input. -/
theorem extends_of_addOutputs {consumers : List (DispatchBox × Nat)} {shape : Shape}
    {r r' : Component} {c c' : Construction}
    (h : consumers.foldlM (fun r (x : DispatchBox × Nat) =>
        (liftM (r.addOutput s!"out_{x.2}" shape) : Constructing Component)) r c = .ok (r', c')) :
    r.Extends r' := by
  induction consumers generalizing r c with
  | nil =>
      rcases Except.ok.inj h with ⟨⟩
      exact .refl _
  | cons x rest ih =>
      rw [List.foldlM_cons] at h
      rcases bind_ok.mp h with ⟨next, d, hlift, hrest⟩
      exact (Component.Extends.addOutput (lift_ok.mp hlift).1).trans (ih hrest)

/-- The wires of a router's consumers are driven by queues. -/
theorem orderly_addRouter (call : DispatchCall) {shape : Shape} (hstream : shape.isStream = true)
    (hwritten : ∀ box ∈ call.plan.consumers, written (consumerStream call.stream box.name)) :
    Ensures (Orderly aliased written owed) (addRouter call shape) fun _ =>
      Orderly aliased written owed := by
  refine .lift_bind fun r hr => ?_
  refine .bind (Q := fun r' c => Orderly aliased written owed c ∧ r.Extends r') ?_ fun r' => ?_
  · intro c r' c' ho h
    rcases Interior.addOutputs_ok h with ⟨_, rfl⟩
    exact ⟨ho, extends_of_addOutputs h⟩
  refine .assume (fun _ h => h.2) fun hextends => ?_
  -- Adding outputs keeps the start and the stream that comes in.
  have hstart : r'.port? startPort = some (.bit, .input) :=
    hextends _ _ (Component.Extends.addInput hr _ _ (Component.port?_ofKind rfl))
  have hin : r'.port? "in" = some (shape, .input) := by
    refine hextends _ _ ?_
    rw [Component.port?_addInput hr, if_pos rfl]
  refine .bind ((orderly_addStateful ⟨_, hstart⟩).weaken (fun _ h => h.1) fun _ _ h => h)
    fun index => ?_
  refine (orderly_connectFresh ⟨_, hin⟩ (by decide)).bind fun _ => ?_
  refine .weaken (.forM fun entry hentry => ?_) (fun _ h => h.1) fun _ _ h => h
  refine orderly_addQueued hstream (.inl (hwritten entry.1 ?_))
  exact List.fst_mem_of_mem_zipIdx hentry

theorem orderly_dispatch (call : DispatchCall)
    (haliased : call.isAlias = true → ∀ box ∈ call.plan.consumers,
      aliased (consumerStream call.stream box.name))
    (hwritten : call.isAlias = false → ∀ box ∈ call.plan.consumers,
      written (consumerStream call.stream box.name)) :
    Ensures (Orderly aliased written owed) (dispatch call) fun _ =>
      Orderly aliased written owed := by
  refine .bind .streamShape fun shape => .assume (fun _ h => h.2.2) fun hstream => ?_
  split
  · next only halias hconsumers =>
    refine (orderly_aliasStream hstream (haliased halias only ?_)).weaken
      (fun _ h => ⟨h.1, h.2.1⟩) fun _ _ h => h
    rw [hconsumers]
    exact List.mem_singleton_self only
  · next hno =>
    refine (orderly_addRouter call hstream (hwritten ?_)).weaken (fun _ h => h.1) fun _ _ h => h
    refine Bool.eq_false_iff.mpr fun halias => ?_
    rcases DispatchCall.exists_of_isAlias halias with ⟨only, hone, _⟩
    exact hno only halias hone

/-- The adapter of a kernel output drives the port that is declared for it. -/
theorem orderly_addOutputAdapter (output : NestOutput) (storeExtents : List Nat) :
    Ensures (Orderly aliased written owed) (addOutputAdapter output storeExtents) fun _ =>
      Orderly aliased written owed := by
  refine .lift_bind fun _ _ => .lift_bind fun a ha => .lift_bind fun b hb => ?_
  rcases Component.extends_of_ports ha hb with ⟨_, _, hin, _⟩
  refine orderly_addAttached rfl ha hb fun index => orderly_addPort.bind fun _ => ?_
  refine .bind (Q := fun _ c => Orderly aliased written (output.external :: owed) c ∧
    c.netlist.Knows (.top output.external) ∧ c.netlist.wire? output.external = none ∧
    c.netlist.producers (.top output.external) = []) ?_ fun _ => ?_
  -- The stream is connected first, and leaves the port of the output without a producer.
  · refine .connect fun c ⟨ho, _, hfresh, hknown, hwire, hfree⟩ => ?_
    rcases ho.tidy.connectFresh hfresh (.endpoint (.top (wireName output.port.port))) ⟨_, hin⟩
      (by decide) with ⟨htidy, _⟩
    refine ⟨ho.of_netlist htidy (.connect _ _), (Netlist.Extends.connect _ _).knows hknown, hwire,
      ?_⟩
    rw [Netlist.producers_connect_of_ne (by simp)]
    exact hfree
  · refine .connect fun c ⟨ho, hknown, hwire, hfree⟩ => ?_
    have htidy := ho.tidy.connect (.endpoint (.port index "data_out")) hknown
      (fun name heq => Endpoint.top.inj heq ▸ hwire) hfree
    refine ho.of_netlist (htidy.serve ?_) (.connect _ _)
    rw [Netlist.producers_connect, if_pos rfl]
    exact List.append_ne_nil_of_right_ne_nil _ (List.cons_ne_nil _ _)

/-- The inputs of a stage have different names, and none of them is the start. -/
theorem ports_of_stageComponent {plan : StagePlan} {stage : Component}
    (h : stageComponent plan = .ok stage) :
    stage.port? startPort = some (.bit, .input) ∧
      (plan.inputs.map StreamPort.port).Nodup ∧ (plan.params.map Prod.fst).Nodup ∧
      (∀ i ∈ plan.inputs, (∃ p, stage.port? i.port = some p) ∧ i.port ≠ startPort) ∧
      ∀ q ∈ plan.params, (∃ p, stage.port? q.1 = some p) ∧ q.1 ≠ startPort ∧
        q.1 ∉ plan.inputs.map StreamPort.port := by
  rcases Fallible.bind_ok.mp h with ⟨s, hs, h⟩
  rcases Fallible.bind_ok.mp h with ⟨s', hs', h⟩
  have hstart : (Component.ofKind plan.moduleName (.stage plan)).port? startPort
      = some (.bit, .input) := Component.port?_ofKind rfl
  have hlast := Component.Extends.addOutput h
  rcases Component.addInputs_ok hs with ⟨hfirst, hnodup, hinputs⟩
  rcases Component.addInputs_ok hs' with ⟨hsecond, hnodup', hparams⟩
  rw [List.map_map] at hnodup
  -- A port that was declared stays, and a name is refused if it has been declared.
  refine ⟨hlast _ _ (hsecond _ _ (hfirst _ _ hstart)), hnodup, hnodup', fun i hi => ?_,
    fun q hq => ?_⟩
  · rcases hinputs _ (List.mem_map_of_mem hi) with ⟨hnone, hsome⟩
    refine ⟨⟨_, hlast _ _ (hsecond _ _ hsome)⟩, fun heq => ?_⟩
    exact absurd (hstart.symm.trans (heq ▸ hnone)) (by simp)
  · rcases hparams q hq with ⟨hnone, hsome⟩
    refine ⟨⟨_, hlast _ _ hsome⟩, fun heq => ?_, fun hmem => ?_⟩
    · exact absurd ((hfirst _ _ hstart).symm.trans (heq ▸ hnone)) (by simp)
    · rcases List.mem_map.mp hmem with ⟨i, hi, heq⟩
      rcases hinputs _ (List.mem_map_of_mem hi) with ⟨_, hport⟩
      exact absurd ((heq ▸ hport).symm.trans hnone) (by simp)

/-- The output of a stage is a stream that is written. -/
theorem orderly_addStage {nest : LoopNest} (hnest : ∀ output ∈ nest.output,
    output.port.shape.isStream = true ∧ written output.port.port) :
    Ensures (Orderly aliased written owed) (addStage nest) fun _ =>
      Orderly aliased written owed := by
  refine .get_bind fun c ho => ?_
  refine .weaken (P := Orderly aliased written owed) ?_ (fun d hd => hd ▸ ho) fun _ _ h => h
  refine .lift_bind fun params _ => .lift_bind fun ⟨plan, output⟩ hfinish =>
    .lift_bind fun stage hstage => ?_
  rcases hnest output (LoopNest.finish_ok hfinish).1 with ⟨hstream, hwritten⟩
  rcases ports_of_stageComponent hstage with ⟨hstart, hinputs, hparams, hinput, hparam⟩
  refine (orderly_addStateful ⟨_, hstart⟩).bind fun index => ?_
  refine (orderly_connectInputs (fun i hi => (hinput i hi).1) hinputs fun i hi => ?_).bind
    fun _ => ?_
  · exact fun hmem => (hinput i hi).2 (List.mem_singleton.mp hmem)
  -- The parameters are joined last, and no input or start port has the name of one.
  have htaken : ∀ q ∈ plan.params,
      q.1 ∉ (plan.inputs.map StreamPort.port).reverse ++ [startPort] := by
    intro q hq
    rw [List.mem_append, List.mem_reverse, List.mem_singleton, not_or]
    exact ⟨(hparam q hq).2.2, (hparam q hq).2.1⟩
  refine .bind (orderly_connectInputs (fun q hq => (hparam q hq).1) hparams htaken) fun _ => ?_
  refine .bind ((orderly_addQueued hstream (.inl hwritten)).weaken (fun _ h => h.1)
    fun _ _ h => h) fun _ => ?_
  refine .get_bind fun d hd => ?_
  refine .weaken (P := Orderly aliased written owed) ?_ (fun e he => he ▸ hd) fun _ _ h => h
  refine .bind (Q := fun _ => Orderly aliased written owed)
    (.change fun e he => ⟨he.tidy, he.slave, he.nest⟩) fun _ => ?_
  split
  · exact orderly_addOutputAdapter output _
  · exact .pure fun _ h => h

/-- When a nest ends there is no nest any more. -/
theorem orderly_endNest : Ensures (Orderly aliased written owed) endNest fun _ =>
    Orderly aliased written owed := by
  refine .get_bind fun c ho => ?_
  cases hnest : c.nest with
  | none => exact .pure fun d hd => hd ▸ ho
  | some nest =>
      refine .bind (Q := fun _ => Orderly aliased written owed) (.change fun d hd => ?_) fun _ =>
        orderly_addStage (ho.nest nest hnest)
      exact ⟨hd ▸ ho.tidy, hd ▸ ho.slave, fun _ hnone => absurd hnone (by simp)⟩

end Construction

end StencilRtl
