import StencilRtl.Proofs.Netlist.Attachment

/-!
# Ports of the Top Module

Which ports a design gets besides those of its bus, and when.

An input stream of the kernel gets its port when the argument is read, together with the
adapter behind it. An output stream is only remembered then. Its port comes with the stage
that writes the stream, at the end of the nest, and what it is called is told by the write: it
carries the name of the port from the call, not from the argument. Whether a write gets a port
is not a matter of the arguments alone either. It gets one if an output of the kernel has the
name of its stream, and also if it tells the shape of the image.

So the ports of a design are those of its bus, one for every input stream, and one for every
write that leaves the design in one of these two ways, in this order. A nest ends before the
next one begins. So while a body is read, there is at most one write that has been met and is
not in the design yet, and the ports are those of all writes that have been met but this one.

## Main definitions

* `Netlist.Opened`: A port of the top module that leads to the adapter of a stream.
* `Netlist.Serves`, `Netlist.Exports`: It is the port of an argument, or that of a write.
* `Kernel.exports`: The writes that leave a design.
* `Construction.Quiet`: A step that opens no port.
* `Construction.Opening`, `Construction.Exporting`: The ports while the arguments of a kernel
  are read, and while its body is.

## Theorems

* `addInputStream_ok`, `addOutputAdapter_ok`: A port is opened.
* `Opening.addArgument`: What an argument opens.
* `exports_followed`: What a statement opens.
* `Netlist.openings_of_ofKernel`: The ports of the design of a kernel.
-/

namespace StencilRtl

namespace Argument

/-- The name of an argument inside the design. -/
def printed (a : Argument) : String := printName a.name

/-- The name of an argument outside of it, which is that of the root of its name. -/
def external (a : Argument) : String := printName (rootName a.name)

/-- A stream that enters the accelerator. -/
def isInput (a : Argument) : Bool := a.isStream && !a.isOutput

/-- A stream that it computes. -/
def isResult (a : Argument) : Bool := a.isStream && a.isOutput

/-- The side of the bus the adapter of a stream argument is on. -/
def side (a : Argument) : AdapterSide := if a.isOutput then .outward else .inward

end Argument

namespace AdapterSide

/-- The direction of the ports of the top module that lead to an adapter. -/
def direction : AdapterSide → Direction
  | .inward => .input
  | .outward => .output

/-- The connection between an adapter and a port of the top module. -/
def link : AdapterSide → Nat → String → Connection
  | .inward, index, port => ⟨.port index "data_in", .endpoint (.top port)⟩
  | .outward, index, port => ⟨.top port, .endpoint (.port index "data_out")⟩

end AdapterSide

/-- The instance of the adapter of a stream. -/
def adapterInstance (stream : String) : String := "IO_" ++ stream

/-- The ports of the top module that belong to the bus. -/
def busInterface : List (String × Shape × Direction) :=
  busPorts.map fun p => (p.1, .uint p.2.1, p.2.2)

namespace WriteStream

/-- A write leaves the design if it tells the shape of the image, or if an output has the name
    of its stream. -/
def leaves (results : List String) (w : WriteStream) : Bool :=
  w.storeExtents.isSome || decide (w.stream ∈ results)

/-- The write a call asks for. -/
def ofOperation : String × List Expr → Option WriteStream
  | (name, args) => if name = callName then (ofArgs args).toOption else none

end WriteStream

/-- The writes a statement evaluates. -/
def Stmt.streamWrites (s : Stmt) : List WriteStream :=
  s.operations.filterMap WriteStream.ofOperation

namespace Kernel

/-- The input streams of a kernel. -/
def inputStreams (k : Kernel) : List Argument := k.args.filter Argument.isInput

/-- The output streams of a kernel. -/
def outputStreams (k : Kernel) : List Argument := k.args.filter Argument.isResult

/-- The writes that leave the design of a kernel. -/
def exports (k : Kernel) : List WriteStream :=
  k.body.streamWrites.filter (WriteStream.leaves (k.outputStreams.map Argument.printed))

end Kernel

/-- The instance of a component if it is an adapter into the accelerator. -/
def Component.inward? (c : Component) : Option String :=
  if c.kind = .adapter .inward then some c.instanceName else none

namespace Netlist

variable {n m : Netlist}

/-- The instances of the adapters into the accelerator. -/
def inwards (n : Netlist) : List String := (n.components.map Component.inward?).filterMap id

theorem inwards_addComponent {c : Component} {index : Nat}
    (h : n.addComponent c = .ok (m, index)) : m.inwards = n.inwards ++ c.inward?.toList := by
  rcases addComponent_ok h with ⟨_, rfl⟩
  rw [inwards, List.map_append, List.filterMap_append, inwards, List.map_singleton]
  cases c.inward? <;> rfl

/-- All instances before have other names. -/
theorem instanceName_ne {c d : Component} {index i : Nat}
    (h : n.addComponent c = .ok (m, index)) (hd : n.component i = .ok d) :
    d.instanceName ≠ c.instanceName := by
  have hnone := addComponent_new h
  rw [find?, List.findIdx?_eq_none_iff] at hnone
  simpa using hnone d (List.mem_of_getElem? (component_ok.mp hd))

/-- A port of the top module that is connected to the adapter of a stream. It has a certain
    name, and carries windows of a certain shape. -/
structure Opened (n : Netlist) (side : AdapterSide) (stream external : String) (shape : Shape)
    (p : String × Shape × Direction) : Prop where
  name : p.1 = external
  kind : p.2.1.kind = .busStream
  elem : p.2.1.elem = shape.elem
  extents : p.2.1.extents = shape.extents
  direction : p.2.2 = side.direction
  adapter : ∃ index d, n.component index = .ok d ∧ d.instanceName = adapterInstance stream ∧
    d.kind = .adapter side ∧ side.link index external ∈ n.connections

/-- The port is that of an argument. -/
def Serves (n : Netlist) (a : Argument) (p : String × Shape × Direction) : Prop :=
  ∃ shape, Shape.ofStencilType a.stencilType = .ok shape ∧
    n.Opened a.side a.printed a.external shape p

/-- The port is that of a write. It has the shape of the stream that is written. -/
def Exports (n : Netlist) (w : WriteStream) (p : String × Shape × Direction) : Prop :=
  ∃ shape, n.wire? (wireName w.stream) = some shape ∧
    n.Opened .outward w.stream w.port shape p

/-- An output stream that is still to be written has a wire. -/
def Awaits (n : Netlist) (a : Argument) (entry : String × Shape) : Prop :=
  entry.1 = a.printed ∧ ∃ shape, Shape.ofStencilType a.stencilType = .ok shape ∧
    n.wire? (wireName a.printed) = some (shape.withKind .stream)

end Netlist

/-- The call of the write that ends a nest. -/
def NestOutput.call (output : NestOutput) : WriteStream :=
  ⟨output.port.port, output.port.stencil, output.external, output.storeExtents⟩

namespace Construction

/-- What has been declared and connected stays declared and connected. -/
structure Kept (c c' : Construction) : Prop where
  declared : c.netlist.Extends c'.netlist
  connections : c.netlist.connections ⊆ c'.netlist.connections

/-- The primitive steps keep everything. -/
theorem kept_respected : Respected Kept where
  refl _ := ⟨.refl _, List.Subset.refl _⟩
  trans h h' := ⟨h.declared.trans h'.declared, List.Subset.trans h.connections h'.connections⟩
  outputs _ _ := ⟨.refl _, List.Subset.refl _⟩
  connect c target source := ⟨.connect _ _, connections_respected.connect c target source⟩
  wire {c _ _ _} h := ⟨.addWire h, connections_respected.wire (c := c) h⟩
  port {c _ _ _ _} h := ⟨.addPort h, connections_respected.port (c := c) h⟩
  component {c _ _ _} hstage hslave h :=
    ⟨.addComponent h, connections_respected.component (c := c) hstage hslave h⟩
  input hs h := by
    refine ⟨.setComponent hs ?_ (Component.kind_addInput h) (.addInput h), List.Subset.refl _⟩
    rw [(Component.addInput_ok h).2]
  output hs h := by
    refine ⟨.setComponent hs ?_ (Component.kind_addOutput h) (.addOutput h), List.Subset.refl _⟩
    rw [(Component.addOutput_ok h).2]
  register _ := ⟨⟨fun _ c hc => ⟨c, hc, rfl, rfl, .refl c⟩, fun _ _ h => h, fun _ _ h => h⟩,
    List.Subset.refl _⟩

/-- So does whatever is read. -/
theorem kept_followed : Followed fun _ => Kept := by
  refine kept_respected.followed (fun _ => ⟨.refl _, List.Subset.refl _⟩)
    (fun _ _ => ⟨.refl _, List.Subset.refl _⟩) fun _ _ _ _ hadd => ⟨.addComponent hadd, ?_⟩
  rw [(Netlist.addComponent_ok hadd).2]
  exact List.Subset.refl _

namespace Kept

variable {c c' : Construction} (h : Kept c c') {p : String × Shape × Direction}

include h

theorem opened {side : AdapterSide} {stream external : String} {shape : Shape}
    (ho : c.netlist.Opened side stream external shape p) :
    c'.netlist.Opened side stream external shape p where
  name := ho.name
  kind := ho.kind
  elem := ho.elem
  extents := ho.extents
  direction := ho.direction
  adapter := by
    rcases ho.adapter with ⟨index, d, hd, hname, hkind, hlink⟩
    rcases h.declared.component index d hd with ⟨d', hd', hname', hkind', _⟩
    exact ⟨index, d', hd', hname'.trans hname, hkind'.trans hkind, h.connections hlink⟩

theorem serves {a : Argument} (ha : c.netlist.Serves a p) : c'.netlist.Serves a p :=
  ha.imp fun _ => And.imp_right h.opened

theorem exported {w : WriteStream} (hw : c.netlist.Exports w p) : c'.netlist.Exports w p :=
  hw.imp fun _ => And.imp (h.declared.wire _ _) h.opened

theorem awaits {a : Argument} {entry : String × Shape} (ha : c.netlist.Awaits a entry) :
    c'.netlist.Awaits a entry :=
  ha.imp_right <| Exists.imp fun _ => And.imp_right <| h.declared.wire _ _

end Kept

/-- A step that opens no port and adds no adapter into the accelerator. It leaves the nest and
    the outputs that are still to be written alone. -/
structure Quiet (c c' : Construction) : Prop extends Kept c c' where
  ports : c'.netlist.ports = c.netlist.ports
  inwards : c'.netlist.inwards = c.netlist.inwards
  outputs : c'.outputs = c.outputs
  nest : c'.nest = c.nest

namespace Quiet

theorem trans {c d e : Construction} (h : Quiet c d) (h' : Quiet d e) : Quiet c e :=
  ⟨kept_respected.trans h.toKept h'.toKept, h'.ports.trans h.ports, h'.inwards.trans h.inwards,
    h'.outputs.trans h.outputs, h'.nest.trans h.nest⟩

variable {c c' : Construction}

theorem connect (c : Construction) (target : Endpoint) (source : Source) :
    Quiet c { c with netlist := c.netlist.connect target source } :=
  ⟨⟨.connect _ _, List.subset_append_left ..⟩, rfl, rfl, rfl, rfl⟩

theorem addWire {name : String} {shape : Shape} {n : Netlist}
    (h : c.netlist.addWire name shape = .ok n) : Quiet c { c with netlist := n } := by
  have hkept := kept_respected.wire (c := c) h
  rcases Netlist.addWire_ok h with ⟨_, rfl⟩
  exact ⟨hkept, rfl, rfl, rfl, rfl⟩

theorem addComponent {component : Component} {n : Netlist} {index : Nat}
    (hkind : component.kind ≠ .adapter .inward)
    (h : c.netlist.addComponent component = .ok (n, index)) : Quiet c { c with netlist := n } := by
  have hext := Netlist.Extends.addComponent h
  have hinwards := Netlist.inwards_addComponent h
  rw [Component.inward?, if_neg hkind, Option.toList_none, List.append_nil] at hinwards
  rcases Netlist.addComponent_ok h with ⟨_, rfl⟩
  exact ⟨⟨hext, List.Subset.refl _⟩, rfl, hinwards, rfl, rfl⟩

/-- The slave interface may get more ports. -/
theorem setSlave {s s' : Component} (hs : c.netlist.component c.slave = .ok s)
    (hname : s'.instanceName = s.instanceName) (hkind : s'.kind = s.kind)
    (hports : s.Extends s') :
    Quiet c { c with netlist := c.netlist.setComponent c.slave s' } := by
  refine ⟨⟨.setComponent hs hname hkind hports, List.Subset.refl _⟩, rfl, ?_, rfl, rfl⟩
  have hinward : s'.inward? = s.inward? := by rw [Component.inward?, Component.inward?, hkind, hname]
  rw [Netlist.inwards, Netlist.map_setComponent hs hinward, Netlist.inwards]

end Quiet

/-- Behind the new component itself, attaching it to the slave interface opens nothing. -/
theorem addStateful_quiet {component : Component} {index : Nat} {c c' : Construction}
    (h : addStateful component c = .ok (index, c')) :
    ∃ n, c.netlist.addComponent component = .ok (n, index) ∧ Quiet { c with netlist := n } c' := by
  rcases addStateful_inv h with ⟨n, s, s', hadd, hs, hs', rfl⟩
  have hset : Quiet { c with netlist := n } { c with netlist := n.setComponent c.slave s' } :=
    .setSlave hs (by rw [(Component.addInput_ok hs').2]) (Component.kind_addInput hs') (.addInput hs')
  exact ⟨n, hadd, hset.trans ((Quiet.connect _ _ _).trans (Quiet.connect _ _ _))⟩

theorem quiet_addStateful {component : Component} (hkind : component.kind ≠ .adapter .inward) :
    Leads Quiet (addStateful component) := by
  intro c index c' h
  rcases addStateful_quiet h with ⟨n, hadd, hbehind⟩
  exact (Quiet.addComponent hkind hadd).trans hbehind

/-- The steps inside a design open no port. -/
theorem quiet_interior : Interior (fun _ => True) Quiet where
  refl c := ⟨kept_respected.refl c, rfl, rfl, rfl, rfl⟩
  trans := .trans
  allows _ := trivial
  connect c target source _ := .connect c target (.endpoint source)
  wire := .addWire
  component hstateful _ h :=
    .addComponent (fun hkind => by rw [hkind] at hstateful; exact absurd hstateful (by decide)) h
  router hkind := quiet_addStateful (by rw [hkind]; exact ComponentKind.noConfusion)

/-- A parameter is no port of the top module. -/
theorem quiet_addParameter (arg : Argument) (shape : Shape) :
    Leads Quiet (addParameter arg shape) := by
  have hI := quiet_interior
  intro c u c' h
  rcases addParameter_ok h with ⟨_, r, d, e, hr, houtput, hwire, rfl⟩
  have hplaced : Quiet c { c with netlist := { c.netlist with registers := r.1 } } :=
    ⟨kept_respected.register hr, rfl, rfl, rfl, rfl⟩
  have hshown : Quiet { c with netlist := { c.netlist with registers := r.1 } } d := by
    rcases updateSlave_ok houtput with ⟨s, s', hs, hs', rfl⟩
    exact .setSlave hs (by rw [(Component.addOutput_ok hs').2]) (Component.kind_addOutput hs')
      (.addOutput hs')
  have hwired : Quiet d e := hI.addWire d () e hwire
  exact hI.trans (hI.trans hplaced hshown) (hI.trans hwired (hI.connect e _ trivial))

/-- An adapter is added together with its port. -/
theorem adapterPort_ok {adapter : Component} {external : String} {shape : Shape}
    {direction : Direction} {index : Nat} {c d e : Construction} {u : Unit}
    (hadapter : addStateful adapter c = .ok (index, d))
    (hport : addPort external shape direction d = .ok (u, e)) :
    e.netlist.ports = c.netlist.ports ++ [(external, shape, direction)] ∧
      e.netlist.inwards = c.netlist.inwards ++ adapter.inward?.toList ∧ e.outputs = c.outputs ∧
      e.nest = c.nest ∧ ∃ a, e.netlist.component index = .ok a ∧
        a.instanceName = adapter.instanceName ∧ a.kind = adapter.kind := by
  rcases addStateful_quiet hadapter with ⟨n, hadd, hattached⟩
  have hcomponent := (Netlist.component_addComponent hadd).mpr (.inr ⟨rfl, rfl⟩)
  rcases hattached.declared.component index _ hcomponent with ⟨a, ha, hname, hkind, _⟩
  rcases tryUpdate_ok hport with ⟨m, hm, rfl⟩
  rcases Netlist.addPort_ok hm with rfl
  refine ⟨?_, hattached.inwards.trans (Netlist.inwards_addComponent hadd), hattached.outputs,
    hattached.nest, a, ha, hname, hkind⟩
  have hports : n.ports = c.netlist.ports := by rw [(Netlist.addComponent_ok hadd).2]
  exact congrArg (· ++ _) (hattached.ports.trans hports)

/-- An input stream opens a port. Its adapter is the only new one into the accelerator. -/
theorem addInputStream_ok {arg : Argument} {shape : Shape} {c c' : Construction} {u : Unit}
    (hbus : shape.kind = .busStream) (h : addInputStream arg shape c = .ok (u, c')) :
    ∃ p, c'.netlist.ports = c.netlist.ports ++ [p] ∧
      c'.netlist.Opened .inward arg.printed arg.external shape p ∧
      c'.netlist.inwards = c.netlist.inwards ++ [adapterInstance arg.printed] ∧
      c'.outputs = c.outputs := by
  rcases lift_bind_ok.mp h with ⟨a, ha, h₁⟩
  rcases lift_bind_ok.mp h₁ with ⟨b, hb, h₂⟩
  rcases Component.eq_of_ports ha hb with rfl
  rcases bind_ok.mp h₂ with ⟨index, d, hadapter, h₃⟩
  rcases bind_ok.mp h₃ with ⟨_, e, hport, h₄⟩
  rcases bind_ok.mp h₄ with ⟨_, f, hconnect, hqueue⟩
  rcases adapterPort_ok hadapter hport with ⟨hports, hinwards, houtputs, _, i, hi, hname, hkind⟩
  rcases Except.ok.inj hconnect with ⟨⟩
  -- The adapter and its port are there, and what comes behind them opens nothing more.
  have hbehind := quiet_interior.addQueued trivial _ _ _ hqueue
  have hopened : (e.netlist.connect (.port index "data_in") (.endpoint (.top arg.external))).Opened
      .inward arg.printed arg.external shape (arg.external, shape, .input) :=
    ⟨rfl, hbus, rfl, rfl, rfl, index, i, hi, hname, hkind,
      List.mem_append_right _ (List.mem_singleton_self _)⟩
  exact ⟨_, hbehind.ports.trans hports, hbehind.opened hopened, hbehind.inwards.trans hinwards,
    hbehind.outputs.trans houtputs⟩

/-- So does the adapter of an output. -/
theorem addOutputAdapter_ok {output : NestOutput} {storeExtents : List Nat}
    {c c' : Construction} {u : Unit} (h : addOutputAdapter output storeExtents c = .ok (u, c')) :
    ∃ p, c'.netlist.ports = c.netlist.ports ++ [p] ∧
      c'.netlist.Opened .outward output.port.port output.external output.port.shape p ∧
      c'.netlist.inwards = c.netlist.inwards ∧ c'.outputs = c.outputs ∧ c'.nest = c.nest := by
  rcases lift_bind_ok.mp h with ⟨_, _, h₀⟩
  rcases lift_bind_ok.mp h₀ with ⟨a, ha, h₁⟩
  rcases lift_bind_ok.mp h₁ with ⟨b, hb, h₂⟩
  rcases Component.eq_of_ports ha hb with rfl
  rcases bind_ok.mp h₂ with ⟨index, d, hadapter, h₃⟩
  rcases bind_ok.mp h₃ with ⟨_, e, hport, h₄⟩
  rcases bind_ok.mp h₄ with ⟨_, f, hconnect, hlast⟩
  rcases adapterPort_ok hadapter hport with
    ⟨hports, hinwards, houtputs, hnest, i, hi, hname, hkind⟩
  rcases Except.ok.inj hconnect with ⟨⟩
  rcases Except.ok.inj hlast with ⟨⟩
  exact ⟨_, hports, ⟨rfl, rfl, rfl, rfl, rfl, index, i, hi, hname, hkind,
    List.mem_append_right _ (List.mem_singleton_self _)⟩,
    hinwards.trans (List.append_nil _), houtputs, hnest⟩

/-- The ports while the arguments of a kernel are read. Its inputs have theirs, and its outputs
    wait for theirs. -/
structure Opening (base : Netlist) (done : List Argument) (c : Construction) : Prop where
  ports : ∃ ins, c.netlist.ports = base.ports ++ ins ∧
    List.Forall₂ c.netlist.Serves (done.filter Argument.isInput) ins
  inwards : c.netlist.inwards = base.inwards ++
    (done.filter Argument.isInput).map fun a => adapterInstance a.printed
  outputs : List.Forall₂ c.netlist.Awaits (done.filter Argument.isResult) c.outputs
  distinct : (c.outputs.map Prod.fst).Nodup

namespace Opening

variable {base : Netlist} {done : List Argument} {c c' : Construction} {u : Unit}
  {arg : Argument} {shape : Shape}

/-- A parameter is no stream. -/
theorem addParameter (h : Opening base done c) (hplain : arg.isStream = false)
    (hrun : Construction.addParameter arg shape c = .ok (u, c')) :
    Opening base (done ++ [arg]) c' := by
  have hquiet := quiet_addParameter arg shape _ _ _ hrun
  have hins : (done ++ [arg]).filter Argument.isInput = done.filter Argument.isInput := by
    simp [List.filter_append, Argument.isInput, hplain]
  have houts : (done ++ [arg]).filter Argument.isResult = done.filter Argument.isResult := by
    simp [List.filter_append, Argument.isResult, hplain]
  rcases h.ports with ⟨ins, hports, hserved⟩
  refine ⟨⟨ins, hquiet.ports.trans hports, ?_⟩, ?_, ?_, hquiet.outputs ▸ h.distinct⟩
  · rw [hins]
    exact hserved.imp fun _ _ => hquiet.serves
  · rw [hins, hquiet.inwards, h.inwards]
  · rw [houts, hquiet.outputs]
    exact h.outputs.imp fun _ _ => hquiet.awaits

/-- An input opens a port. -/
theorem addInputStream (h : Opening base done c) (hstream : arg.isStream = true)
    (hinput : arg.isOutput = false) (hshape : Shape.ofStencilType arg.stencilType = .ok shape)
    (hbus : shape.kind = .busStream)
    (hrun : Construction.addInputStream arg shape c = .ok (u, c')) :
    Opening base (done ++ [arg]) c' := by
  have hkept := kept_respected.addInputStream arg shape _ _ _ hrun
  rcases addInputStream_ok hbus hrun with ⟨p, hports', hopened, hinwards, houtputs⟩
  -- The argument is the next input and no result, so only the first list gets longer.
  have hins : (done ++ [arg]).filter Argument.isInput = done.filter Argument.isInput ++ [arg] := by
    simp [List.filter_append, Argument.isInput, hstream, hinput]
  have houts : (done ++ [arg]).filter Argument.isResult = done.filter Argument.isResult := by
    simp [List.filter_append, Argument.isResult, hinput]
  have hserves : c'.netlist.Serves arg p := by
    refine ⟨shape, hshape, ?_⟩
    rw [Argument.side, hinput, if_neg Bool.false_ne_true]
    exact hopened
  rcases h.ports with ⟨ins, hports, hserved⟩
  refine ⟨⟨ins ++ [p], ?_, ?_⟩, ?_, ?_, houtputs ▸ h.distinct⟩
  · rw [hports', hports, List.append_assoc]
  · rw [hins]
    exact List.rel_append (hserved.imp fun _ _ => hkept.serves) (.cons hserves .nil)
  · rw [hins, hinwards, h.inwards, List.map_append, List.append_assoc, List.map_singleton]
  · rw [houts, houtputs]
    exact h.outputs.imp fun _ _ => hkept.awaits

/-- An output is remembered. Its wire is new, so no other one of its name is remembered. -/
theorem addOutputStream (h : Opening base done c) (hstream : arg.isStream = true)
    (houtput : arg.isOutput = true) (hshape : Shape.ofStencilType arg.stencilType = .ok shape)
    (hrun : Construction.addOutputStream arg shape c = .ok (u, c')) :
    Opening base (done ++ [arg]) c' := by
  have hwire := modify_bind_ok.mp hrun
  have hquiet := quiet_interior.addWire _ _ _ hwire
  rcases tryUpdate_ok hwire with ⟨n, hn, rfl⟩
  have hins : (done ++ [arg]).filter Argument.isInput = done.filter Argument.isInput := by
    simp [List.filter_append, Argument.isInput, houtput]
  have houts : (done ++ [arg]).filter Argument.isResult
      = done.filter Argument.isResult ++ [arg] := by
    simp [List.filter_append, Argument.isResult, hstream, houtput]
  rcases h.ports with ⟨ins, hports, hserved⟩
  refine ⟨⟨ins, hquiet.ports.trans hports, ?_⟩, ?_, ?_, ?_⟩
  · rw [hins]
    exact hserved.imp fun _ _ => hquiet.toKept.serves
  · rw [hins]
    exact hquiet.inwards.trans h.inwards
  · rw [houts]
    refine List.rel_append (h.outputs.imp fun _ _ => hquiet.toKept.awaits) (.cons ⟨rfl, ?_⟩ .nil)
    exact ⟨shape, hshape, (Netlist.wire?_addWire hn).1⟩
  · rw [List.map_append, List.map_singleton]
    refine List.nodup_append.mpr ⟨h.distinct, List.pairwise_singleton .., fun x hx y hy => ?_⟩
    rintro rfl
    -- One that is remembered has a wire, which the new one would have to share.
    rcases List.mem_map.mp hx with ⟨entry, hentry, hname⟩
    rcases exists_of_forall₂ h.outputs.flip hentry with ⟨a, _, hprinted, _, _, hfound⟩
    rw [← hprinted, hname, List.mem_singleton.mp hy] at hfound
    exact absurd ((Netlist.addWire_ok hn).1.symm.trans hfound) (by simp)

/-- What an argument opens. -/
theorem addArgument (h : Opening base done c)
    (hrun : Construction.addArgument arg c = .ok (u, c')) : Opening base (done ++ [arg]) c' := by
  rcases lift_bind_ok.mp hrun with ⟨shape, hshape, hadd⟩
  split at hadd
  · next hplain => exact h.addParameter (by simpa using hplain) hadd
  next hstream =>
  rw [Bool.not_eq_true', Bool.not_eq_false] at hstream
  split at hadd
  · exact absurd (lift_ok.mp hadd).1 (by simp [unsupported])
  next hbus =>
  split at hadd
  · next houtput => exact h.addOutputStream hstream houtput hshape hadd
  · next hinput =>
    exact h.addInputStream hstream (Bool.eq_false_iff.mpr hinput) hshape (not_not.mp hbus) hadd

/-- What some arguments open. -/
theorem forM {args : List Argument} (h : Opening base done c)
    (hrun : args.forM Construction.addArgument c = .ok (u, c')) :
    Opening base (done ++ args) c' := by
  induction args generalizing done c with
  | nil =>
      rcases Except.ok.inj hrun with ⟨⟩
      rwa [List.append_nil]
  | cons arg rest ih =>
      rcases bind_ok.mp hrun with ⟨_, d, harg, hrest⟩
      rw [List.append_cons]
      exact ih (h.addArgument harg) hrest

end Opening

/-- The write that has been met in the nest and is not in the design yet. -/
def due (c : Construction) : List WriteStream :=
  ((c.nest.bind LoopNest.output).map NestOutput.call).toList

/-- The ports while the body of a kernel is read. Of the writes that are in the design those
    have theirs that leave it. -/
structure Exporting (base : Netlist) (results : List (String × Shape)) (done : List WriteStream)
    (c : Construction) : Prop where
  ports : ∃ outs, c.netlist.ports = base.ports ++ outs ∧
    List.Forall₂ c.netlist.Exports (done.filter (WriteStream.leaves (results.map Prod.fst))) outs
  inwards : c.netlist.inwards = base.inwards
  outputs : c.outputs = results.filter fun entry => entry.1 ∉ done.map WriteStream.stream
  distinct : (done.map WriteStream.stream).Nodup
  queued : ∀ w ∈ done, ∃ index d, c.netlist.component index = .ok d ∧
    d.instanceName = "FIFO_" ++ w.stream
  known : ∀ nest ∈ c.nest, ∀ output ∈ nest.output,
    c.netlist.wire? (wireName output.port.port) = some output.port.shape

/-- A stream is driven through a queue of its own. -/
theorem instance_addQueued {stream : String} {shape : Shape} {source : Endpoint}
    {c c' : Construction} {u : Unit} (h : addQueued stream shape source c = .ok (u, c')) :
    (∀ index d, c.netlist.component index = .ok d → d.instanceName ≠ "FIFO_" ++ stream) ∧
      ∃ index q, c'.netlist.component index = .ok q ∧ q.instanceName = "FIFO_" ++ stream := by
  rcases addQueued_inv h with ⟨n, q, m, index, hwire, hname, _, _, _, hadd, rfl⟩
  have hext : c.netlist.Extends n := by
    rcases hwire with hwire | ⟨rfl, _⟩
    · exact .addWire hwire
    · exact .refl _
  refine ⟨fun i d hd => ?_, index, q, (Netlist.component_addComponent hadd).mpr (.inr ⟨rfl, rfl⟩),
    hname⟩
  rcases hext.component i d hd with ⟨d', hd', hsame, _⟩
  rw [← hsame, ← hname]
  exact Netlist.instanceName_ne hadd hd'

namespace Exporting

variable {base : Netlist} {results : List (String × Shape)} {done : List WriteStream}
  {c c' : Construction} {u : Unit}

theorem quiet (h : Exporting base results done c) (hc : Quiet c c') :
    Exporting base results done c' where
  ports := by
    rcases h.ports with ⟨outs, hports, hexported⟩
    exact ⟨outs, hc.ports.trans hports, hexported.imp fun _ _ => hc.exported⟩
  inwards := hc.inwards.trans h.inwards
  outputs := hc.outputs.trans h.outputs
  distinct := h.distinct
  queued w hw := by
    rcases h.queued w hw with ⟨index, d, hd, hname⟩
    rcases hc.declared.component index d hd with ⟨d', hd', hname', _⟩
    exact ⟨index, d', hd', hname'.trans hname⟩
  known nest hnest output houtput := by
    rw [hc.nest] at hnest
    exact hc.declared.wire _ _ (h.known nest hnest output houtput)

/-- A write that is not in the design yet leaves it just if it has an image. -/
theorem outputImage_isSome (h : Exporting base results done c) {output : NestOutput}
    (hnew : output.port.port ∉ done.map WriteStream.stream) :
    (outputImage c output).isSome = output.call.leaves (results.map Prod.fst) := by
  unfold outputImage WriteStream.leaves
  cases hextents : output.storeExtents with
  | some extents => simp [NestOutput.call, hextents]
  | none =>
      simp only [NestOutput.call, hextents, Option.isSome_none, Bool.false_or, Option.isSome_map]
      rw [Bool.eq_iff_iff, List.find?_isSome, decide_eq_true_iff, List.mem_map, h.outputs]
      constructor
      · rintro ⟨entry, hentry, hname⟩
        exact ⟨entry, (List.mem_filter.mp hentry).1, of_decide_eq_true hname⟩
      · rintro ⟨entry, hentry, hname⟩
        refine ⟨entry, List.mem_filter.mpr ⟨hentry, decide_eq_true ?_⟩, decide_eq_true hname⟩
        rwa [hname]

/-- With the stage of a nest its write comes into the design. -/
theorem addStage {nest : LoopNest} (h : Exporting base results done c) (hnest : c.nest = none)
    (hknown : ∀ output ∈ nest.output,
      c.netlist.wire? (wireName output.port.port) = some output.port.shape)
    (hrun : Construction.addStage nest c = .ok (u, c')) :
    ∃ output, nest.output = some output ∧ c'.nest = none ∧
      Exporting base results (done ++ [output.call]) c' := by
  rcases addStage_parts quiet_interior (fun hkind => quiet_addStateful (by rw [hkind]; simp)) hrun
    with ⟨output, d, e, source, houtput, hbefore, _, hqueue, hrest⟩
  have hlater := hbefore.trans (quiet_interior.addQueued trivial _ _ _ hqueue)
  have he := h.quiet hlater
  -- No stream is written twice, because the queue of the stage is a new instance.
  have hnew : output.port.port ∉ done.map WriteStream.stream := by
    intro hmem
    rcases List.mem_map.mp hmem with ⟨w, hw, hstream⟩
    rcases (h.quiet hbefore).queued w hw with ⟨index, q, hq, hname⟩
    exact (instance_addQueued hqueue).1 index q hq (by rw [hname, hstream])
  have himage := he.outputImage_isSome hnew
  have houtputs : (e.written output.port.port).outputs
      = results.filter fun entry => entry.1 ∉ (done ++ [output.call]).map WriteStream.stream := by
    rw [written, he.outputs, List.filter_filter]
    refine List.filter_congr fun entry _ => ?_
    simp only [List.map_append, List.map_singleton, List.mem_append, List.mem_singleton, not_or,
      Bool.decide_and, NestOutput.call]
    exact Bool.and_comm ..
  have hdistinct : ((done ++ [output.call]).map WriteStream.stream).Nodup := by
    rw [List.map_append, List.map_singleton, ← List.concat_eq_append]
    exact h.distinct.concat hnew
  have hqueued : ∀ w ∈ done ++ [output.call], ∃ index d, e.netlist.component index = .ok d ∧
      d.instanceName = "FIFO_" ++ w.stream :=
    List.forall_mem_append.mpr
      ⟨he.queued, List.forall_mem_singleton.mpr (instance_addQueued hqueue).2⟩
  have hclosed : e.nest = none := hlater.nest.trans hnest
  rcases he.ports with ⟨outs, hports, hexported⟩
  refine ⟨output, houtput, ?_⟩
  rcases hrest with ⟨hnone, rfl⟩ | ⟨image, hsome, hadapter⟩
  · rw [hnone, Option.isSome_none] at himage
    refine ⟨hclosed, ⟨outs, hports, ?_⟩, he.inwards, houtputs, hdistinct, hqueued,
      fun _ hopen => absurd (hclosed.symm.trans hopen) (by simp)⟩
    rw [List.filter_append, List.filter_cons_of_neg (by simp [← himage]), List.filter_nil,
      List.append_nil]
    exact hexported
  · rw [hsome, Option.isSome_some] at himage
    have hkept := kept_respected.addOutputAdapter output image _ _ _ hadapter
    rcases addOutputAdapter_ok hadapter with ⟨p, hports', hopened, hinwards', houtputs', hnest'⟩
    have hclosed' : c'.nest = none := hnest'.trans hclosed
    have hexports : c'.netlist.Exports output.call p :=
      ⟨_, hkept.declared.wire _ _ (hlater.declared.wire _ _ (hknown output houtput)), hopened⟩
    refine ⟨hclosed', ⟨outs ++ [p], ?_, ?_⟩, hinwards'.trans he.inwards, houtputs'.trans houtputs,
      hdistinct, fun w hw => ?_, fun _ hopen => absurd (hclosed'.symm.trans hopen) (by simp)⟩
    · rw [hports', ← List.append_assoc, ← hports]
      rfl
    · rw [List.filter_append, List.filter_cons_of_pos himage.symm, List.filter_nil]
      exact List.rel_append (hexported.imp fun _ _ => hkept.exported) (.cons hexports .nil)
    · rcases hqueued w hw with ⟨index, q, hq, hname⟩
      rcases hkept.declared.component index q hq with ⟨q', hq', hname', _⟩
      exact ⟨index, q', hq', hname'.trans hname⟩

end Exporting

/-- From one construction to another one some writes have been met. What had been met and was
    not in the design, and they, are in the design now or will be. -/
def Exports (base : Netlist) (results : List (String × Shape)) (met : List WriteStream)
    (c c' : Construction) : Prop :=
  ∀ done, Exporting base results done c → ∃ more, c.due ++ met = more ++ c'.due ∧
    Exporting base results (done ++ more) c'

/-- What leaves the nest alone exports nothing. -/
theorem Quiet.exports {base : Netlist} {results : List (String × Shape)} {c c' : Construction}
    (h : Quiet c c') : Exports base results [] c c' := by
  intro done hdone
  refine ⟨[], ?_, ?_⟩
  · rw [due, due, h.nest, List.append_nil, List.nil_append]
  · rw [List.append_nil]
    exact hdone.quiet h

/-- The nest may change as long as its output is the same. -/
theorem exports_nest {base : Netlist} {results : List (String × Shape)} {c : Construction}
    {nest : LoopNest} (hsame : nest.output = c.nest.bind LoopNest.output) :
    Exports base results [] c { c with nest := some nest } := by
  intro done hdone
  refine ⟨[], ?_, ?_⟩
  · rw [due, due, List.append_nil, List.nil_append, Option.bind_some, hsame]
  · rw [List.append_nil]
    refine ⟨hdone.ports, hdone.inwards, hdone.outputs, hdone.distinct, hdone.queued, ?_⟩
    intro _ hopen output houtput
    rcases Option.some.inj hopen with rfl
    rw [hsame, Option.mem_def, Option.bind_eq_some_iff] at houtput
    rcases houtput with ⟨before, hbefore, houtput⟩
    exact hdone.known before hbefore output houtput

/-- With its nest a write comes into the design. -/
theorem exports_endNest {base : Netlist} {results : List (String × Shape)} :
    Leads (Exports base results []) endNest := by
  intro c u c' h
  rcases endNest_ok h with ⟨_, rfl⟩ | ⟨nest, hnest, hstage⟩
  · exact (quiet_interior.refl c').exports
  · intro done hdone
    -- The nest is taken out before its stage is made, so what it wrote is no longer due then.
    have hstart : Exporting base results done { c with nest := none } :=
      ⟨hdone.ports, hdone.inwards, hdone.outputs, hdone.distinct, hdone.queued,
        fun _ hnone => absurd hnone (by simp)⟩
    rcases hstart.addStage rfl (hdone.known nest hnest) hstage with
      ⟨output, houtput, hclosed, hend⟩
    refine ⟨[output.call], ?_, hend⟩
    rw [due, due, hnest, hclosed, Option.bind_some, houtput]
    rfl

/-- A write is met in a nest that has not written. -/
theorem exports_write {base : Netlist} {results : List (String × Shape)} {call : WriteStream}
    {shape : Shape} {c : Construction} {before nest : LoopNest}
    (hwire : c.netlist.wire? (wireName call.stream) = some shape) (hbefore : c.nest = some before)
    (hwrite : before.write call shape = .ok nest) :
    Exports base results [call] c { c with nest := some nest } := by
  intro done hdone
  rcases LoopNest.write_ok hwrite with ⟨hnone, rfl⟩
  refine ⟨[], ?_, ?_⟩
  · rw [due, due, hbefore, Option.bind_some, hnone]
    rfl
  · rw [List.append_nil]
    refine ⟨hdone.ports, hdone.inwards, hdone.outputs, hdone.distinct, hdone.queued, ?_⟩
    intro _ hopen output hsome
    rcases Option.some.inj hopen with rfl
    rcases Option.some.inj hsome with rfl
    exact hwire

/-- Of the operations on streams only writes leave a design. -/
theorem exports_operation {base : Netlist} {results : List (String × Shape)} (name : String)
    (args : List Expr) : Leads (Exports base results (WriteStream.ofOperation (name, args)).toList)
      (operation name args) := by
  have hI := quiet_interior
  intro c u c' h
  cases operation_ok h with
  | read _ _ _ hbefore hread =>
      exact exports_nest (by rw [hbefore, LoopNest.output_read hread, Option.bind_some])
  | write hcall hwire _ hbefore hwrite =>
      rw [WriteStream.ofOperation, if_pos rfl, hcall]
      exact exports_write hwire hbefore hwrite
  | lineBuffer _ hrun => exact (hI.lineBuffer _ c () c' hrun).exports
  | dispatch _ hrun => exact (hI.dispatch _ c () c' hrun).exports

/-- What a statement exports are its writes. -/
theorem exports_followed {base : Netlist} {results : List (String × Shape)} :
    Followed fun ops => Exports base results (ops.filterMap WriteStream.ofOperation) where
  refl c := (quiet_interior.refl c).exports
  -- What is exported first is already done when the rest is read.
  trans {ops ops' c d e} h h' := by
    intro done hdone
    rcases h done hdone with ⟨more, hmore, hd⟩
    rcases h' (done ++ more) hd with ⟨rest, hrest, he⟩
    refine ⟨more ++ rest, ?_, List.append_assoc .. ▸ he⟩
    rw [List.filterMap_append, ← List.append_assoc, hmore, List.append_assoc, hrest,
      List.append_assoc]
  producer c producer := by
    refine Quiet.exports ⟨⟨.refl _, List.Subset.refl _⟩, rfl, rfl, rfl, rfl⟩
  begins hnone hsame := exports_nest (by rw [hnone, hsame.output]; rfl)
  continues hbefore hsame := exports_nest (by rw [hbefore, hsame.output]; rfl)
  ends := exports_endNest
  realized _ c u c' h := (quiet_interior.addWire c u c' h).exports
  -- An operation is a write or none, so it exports at most one.
  operation name args c u c' h := by
    have hone : [(name, args)].filterMap WriteStream.ofOperation
        = (WriteStream.ofOperation (name, args)).toList := by
      cases hcall : WriteStream.ofOperation (name, args) <;> simp [hcall]
    rw [hone]
    exact exports_operation name args c u c' h

end Construction

namespace Netlist

/-- The ports of a design: those of the bus, those of the input streams of the kernel and those
    of the writes that leave it. There is such a write for every output stream. -/
structure Openings (n : Netlist) (k : Kernel) (ins outs : List (String × Shape × Direction)) :
    Prop where
  ports : n.ports = busInterface ++ ins ++ outs
  ins : List.Forall₂ n.Serves k.inputStreams ins
  outs : List.Forall₂ n.Exports k.exports outs
  inwards : n.inwards = k.inputStreams.map fun a => adapterInstance a.printed
  distinct : (k.exports.map WriteStream.stream).Nodup
  named : (k.outputStreams.map Argument.printed).Nodup
  written : ∀ a ∈ k.outputStreams, (∃ w ∈ k.exports, w.stream = a.printed) ∧
    ∃ shape, Shape.ofStencilType a.stencilType = .ok shape ∧
      n.wire? (wireName a.printed) = some (shape.withKind .stream)

/-- At the beginning there are the ports of the bus. -/
theorem opening_of_addBus {bus : Netlist} {name : String} {slave : Nat}
    (h : Construction.addBus (.empty name) = .ok (bus, slave)) :
    bus.ports = busInterface ∧ bus.inwards = [] ∧
      Construction.Opening bus [] ⟨bus, slave, none, none, []⟩ := by
  rcases Construction.addBus_inv h with ⟨s, hkind, _, _, rfl, rfl⟩
  refine ⟨rfl, ?_, ⟨[], (List.append_nil _).symm, .nil⟩, (List.append_nil _).symm, .nil,
    List.nodup_nil⟩
  have hplain : s.inward? = none := by
    rw [Component.inward?, if_neg (by rw [hkind]; exact ComponentKind.noConfusion)]
  simp [inwards, empty, hplain]

/-- The ports of the design of a kernel. -/
theorem openings_of_ofKernel {k : Kernel} {n : Netlist} (h : ofKernel k = .ok n) :
    ∃ ins outs, n.Openings k ins outs := by
  rcases ofKernel_ok h with ⟨bus, slave, c, hbus, hkernel, hwritten, rfl, _⟩
  rcases bind_ok.mp hkernel with ⟨_, d, hargs, hbody⟩
  rcases opening_of_addBus hbus with ⟨hports, hinwards, hstart⟩
  have hopening : Construction.Opening bus k.args d := hstart.forM hargs
  have hd : d.nest = none :=
    Construction.untouched_respected.forM Construction.untouched_respected.addArgument _ _ d hargs
      |>.1
  have hc : c.nest = none := ((Construction.statement_reads k.body d _ c hbody).outside hd).1
  have hkept : Construction.Kept d c := Construction.kept_followed.statement k.body d _ c hbody
  have hbegin : Construction.Exporting d.netlist d.outputs [] d :=
    ⟨⟨[], (List.append_nil _).symm, .nil⟩, rfl, by simp, List.nodup_nil, List.forall_mem_nil _,
      fun _ hopen => absurd (hd.symm.trans hopen) (by simp)⟩
  rcases Construction.exports_followed.statement k.body d _ c hbody [] hbegin with
    ⟨done, hmet, hend⟩
  -- No nest is left, so all writes are in the design.
  have hdone : done = k.body.streamWrites := by
    have hnone : ∀ e : Construction, e.nest = none → e.due = [] := fun e he => by
      rw [Construction.due, he]
      rfl
    rw [hnone d hd, hnone c hc, List.nil_append, List.append_nil] at hmet
    exact hmet.symm
  have hnames : d.outputs.map Prod.fst = k.outputStreams.map Argument.printed :=
    map_eq_of_forall₂ hopening.outputs fun _ _ hawaits => hawaits.1
  rw [List.nil_append, hdone] at hend
  rcases hopening.ports with ⟨ins, hins, hserved⟩
  rcases hend.ports with ⟨outs, houts, hexported⟩
  rw [hnames] at hexported
  refine ⟨ins, outs, ?_, hserved.imp fun _ _ => hkept.serves, hexported, ?_, ?_, ?_,
    fun a ha => ?_⟩
  · rw [houts, hins, hports]
  · rw [hend.inwards, hopening.inwards, hinwards]
    rfl
  · exact (List.filter_sublist.map _).nodup hend.distinct
  · rw [← hnames]
    exact hopening.distinct
  · rcases exists_of_forall₂ hopening.outputs ha with ⟨entry, hentry, hname, hawaits⟩
    refine ⟨?_, hawaits.imp fun _ => And.imp_right (hkept.declared.wire _ _)⟩
    -- Nothing is left to be written, so some write was to this output.
    have hgone := List.filter_eq_nil_iff.mp (hend.outputs.symm.trans hwritten) entry hentry
    rw [decide_eq_true_iff, not_not, List.mem_map] at hgone
    rcases hgone with ⟨w, hw, hstream⟩
    refine ⟨w, List.mem_filter.mpr ⟨hw, ?_⟩, hstream.trans hname⟩
    rw [WriteStream.leaves, Bool.or_eq_true, decide_eq_true_iff, hstream, hname]
    exact .inr (List.mem_map_of_mem ha)

end Netlist

end StencilRtl
