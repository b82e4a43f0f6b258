import StencilRtl.Proofs.Netlist.Building
import StencilRtl.Proofs.Netlist.Construction
import StencilRtl.Proofs.Netlist.Reading
import StencilRtl.Proofs.Registers.Allocation

/-!
# What a Construction Never Takes Back

Designs only grow while a kernel is read.

A wire that has been declared keeps its shape, a parameter its place in the register
map, and the slave interface its ports. So what an argument of the kernel has led to
when it was read is still there in the finished design. A stage is given the parameters
its nest mentions with the shapes that their wires have at that time, and since wires
keep their shapes these are the shapes of the arguments.

## Main definitions

* `Netlist.Known`: The parameters of all stages have wires of their shapes.
* `Construction.Grows`: Nothing of a construction has been taken back.
* `Netlist.Holds`: A design holds a parameter.

## Theorems

* `grows_respected`, `grows_statement`: Reading a kernel takes nothing back.
* `addBus_inv`, `addBus_ok`: The slave interface has the ports of the bus.
* `Netlist.holds_of_ofKernel`: A design holds the parameters of its kernel.
-/

namespace StencilRtl

namespace Component

/-- A component has the ports of another one, and maybe more. -/
def Extends (c d : Component) : Prop := ∀ name p, c.port? name = some p → d.port? name = some p

namespace Extends

variable {c d e : Component} {name : String} {shape : Shape}

theorem refl (c : Component) : c.Extends c := fun _ _ h => h

theorem trans (h : c.Extends d) (h' : d.Extends e) : c.Extends e :=
  fun name p hp => h' name p (h name p hp)

theorem addInput (h : c.addInput name shape = .ok d) : c.Extends d := by
  intro other p hp
  rw [port?_addInput h, if_neg, hp]
  rintro rfl
  rw [(addInput_ok h).1] at hp
  exact absurd hp (by simp)

theorem addOutput (h : c.addOutput name shape = .ok d) : c.Extends d := by
  intro other p hp
  rw [port?_addOutput h, if_neg, hp]
  rintro rfl
  rw [(addOutput_ok h).1] at hp
  exact absurd hp (by simp)

end Extends

end Component

namespace Netlist

/-- The parameters of all stages have wires of their shapes. -/
def Known (n : Netlist) : Prop :=
  ∀ plan ∈ n.stagePlans, ∀ p ∈ plan.params, n.wire? (wireName p.1) = some p.2

variable {n m : Netlist}

theorem Known.of_stagePlans (h : n.Known) (hplans : m.stagePlans = n.stagePlans)
    (hwires : ∀ name shape, n.wire? name = some shape → m.wire? name = some shape) : m.Known := by
  intro plan hplan p hp
  exact hwires _ _ (h plan (hplans ▸ hplan) p hp)

end Netlist

namespace Construction

/-- Nothing of a construction has been taken back. -/
structure Grows (c c' : Construction) : Prop where
  slave : c'.slave = c.slave
  number : c'.netlist.slave = c.netlist.slave
  wire : ∀ name shape, c.netlist.wire? name = some shape → c'.netlist.wire? name = some shape
  register : ∀ name e, c.netlist.registers.find? name = some e →
    c'.netlist.registers.find? name = some e
  ports : ∀ s, c.netlist.component c.slave = .ok s →
    ∃ s', c'.netlist.component c.slave = .ok s' ∧ s.Extends s'
  cursor : c.netlist.registers.cursor ≤ c'.netlist.registers.cursor
  distinct : c.netlist.registers.Distinct → c'.netlist.registers.Distinct
  known : c.netlist.Known → c'.netlist.Known

namespace Grows

variable {c c' d : Construction}

theorem trans (h : Grows c c') (h' : Grows c' d) : Grows c d where
  slave := h'.slave.trans h.slave
  number := h'.number.trans h.number
  wire name shape hw := h'.wire name shape (h.wire name shape hw)
  register name e he := h'.register name e (h.register name e he)
  ports s hs := by
    rcases h.ports s hs with ⟨s', hs', hextends⟩
    rcases h'.ports s' (h.slave ▸ hs') with ⟨s'', hs'', hextends'⟩
    exact ⟨s'', h.slave ▸ hs'', hextends.trans hextends'⟩
  cursor := h.cursor.trans h'.cursor
  distinct hd := h'.distinct (h.distinct hd)
  known hk := h'.known (h.known hk)

/-- Components and connections apart, the design is what it was. -/
theorem of_same (hslave : c'.slave = c.slave) (hnumber : c'.netlist.slave = c.netlist.slave)
    (hwires : c'.netlist.wires = c.netlist.wires)
    (hregisters : c'.netlist.registers = c.netlist.registers)
    (hports : ∀ s, c.netlist.component c.slave = .ok s →
      ∃ s', c'.netlist.component c.slave = .ok s' ∧ s.Extends s')
    (hknown : c.netlist.Known → c'.netlist.Known) : Grows c c' where
  slave := hslave
  number := hnumber
  wire name shape hw := by rwa [Netlist.wire?, hwires]
  register name e he := by rwa [hregisters]
  ports := hports
  cursor := by rw [hregisters]
  distinct hd := by rwa [hregisters]
  known := hknown

/-- The nest and what else is remembered are no part of the design. -/
theorem of_netlist (hslave : c'.slave = c.slave) (hnetlist : c'.netlist = c.netlist) :
    Grows c c' :=
  of_same hslave (by rw [hnetlist]) (by rw [hnetlist]) (by rw [hnetlist])
    (fun s hs => ⟨s, hnetlist ▸ hs, .refl s⟩) (by rw [hnetlist]; exact id)

/-- A new component that is no slave interface. If it is a stage, its parameters have
    wires already. -/
theorem of_addComponent {component : Component} {n : Netlist} {index : Nat}
    (hkind : component.kind ≠ .slaveInterface)
    (hplan : ∀ plan, component.kind.plan? = some plan →
      ∀ p ∈ plan.params, c.netlist.wire? (wireName p.1) = some p.2)
    (h : c.netlist.addComponent component = .ok (n, index)) :
    Grows c { c with netlist := n } := by
  have hplans := Netlist.stagePlans_addComponent h
  rcases Netlist.addComponent_ok h with ⟨_, rfl⟩
  refine of_same rfl (if_neg hkind) rfl rfl (fun s hs => ⟨s, ?_, .refl s⟩) fun hknown => ?_
  · rw [Netlist.component_ok] at hs ⊢
    rw [List.getElem?_append_left (List.getElem?_eq_some_iff.mp hs).1, hs]
  · intro plan hmem p hp
    rw [hplans, List.mem_append] at hmem
    rcases hmem with hmem | hmem
    · exact hknown plan hmem p hp
    · exact hplan plan (Option.mem_toList.mp hmem) p hp

/-- The slave interface may get more ports. -/
theorem of_setComponent {s s' : Component} (hs : c.netlist.component c.slave = .ok s)
    (hkind : s'.kind = s.kind) (hextends : s.Extends s') :
    Grows c { c with netlist := c.netlist.setComponent c.slave s' } := by
  refine of_same rfl rfl rfl rfl (fun r hr => ⟨s', ?_, ?_⟩) fun hknown => ?_
  · exact Netlist.component_setComponent hs
  · rw [hs] at hr
    exact Except.ok.inj hr ▸ hextends
  · exact hknown.of_stagePlans (Netlist.stagePlans_setComponent hs hkind) fun _ _ h => h

end Grows

/-- The primitive steps take nothing back. -/
theorem grows_respected : Respected Grows where
  refl _ := .of_netlist rfl rfl
  trans := .trans
  outputs _ _ := .of_netlist rfl rfl
  connect _ _ _ := .of_same rfl rfl rfl rfl (fun s hs => ⟨s, hs, .refl s⟩) id
  wire {c name shape n} h := by
    have hwires := (Netlist.wire?_addWire h).2
    rcases Netlist.addWire_ok h with ⟨_, rfl⟩
    exact ⟨rfl, rfl, hwires, fun _ _ he => he, fun s hs => ⟨s, hs, .refl s⟩, Nat.le_refl _, id,
      fun hknown => hknown.of_stagePlans rfl hwires⟩
  port h := by
    rcases Netlist.addPort_ok h with rfl
    exact .of_same rfl rfl rfl rfl (fun s hs => ⟨s, hs, .refl s⟩) id
  -- A new component is another one than those that were there.
  component hstage hslave h :=
    .of_addComponent hslave (fun plan hplan => absurd (hstage.symm.trans hplan) (by simp)) h
  input hs h := .of_setComponent hs (Component.kind_addInput h) (.addInput h)
  output hs h := .of_setComponent hs (Component.kind_addOutput h) (.addOutput h)
  register h := ⟨rfl, rfl, fun _ _ hw => hw, (RegisterMap.find?_allocate h).2,
    fun s hs => ⟨s, hs, .refl s⟩, RegisterMap.cursor_allocate h, RegisterMap.distinct_allocate h,
    id⟩

section Statements

open Leads

/-- The parameters of a nest have wires of their shapes, which are no streams. -/
theorem parameters_ok {n : Netlist} {nest : LoopNest} {names : List String}
    {params : List (String × Shape)} (h : parameters n nest names = .ok params) :
    ∀ p ∈ params, n.wire? (wireName p.1) = some p.2 ∧ p.2.isStream = false := by
  induction names generalizing params with
  | nil =>
      rw [← Except.ok.inj h]
      exact List.forall_mem_nil _
  | cons name rest ih =>
      unfold parameters at h
      simp only [] at h
      split at h
      -- A window that is read is passed over.
      · exact ih h
      split at h
      · next shape hshape =>
        rcases Fallible.bind_ok.mp h with ⟨more, hmore, hpure⟩
        rw [← Except.ok.inj hpure]
        rcases Option.filter_eq_some_iff.mp hshape with ⟨hwire, hstream⟩
        exact List.forall_mem_cons.mpr ⟨⟨hwire, by simpa using hstream⟩, ih hmore⟩
      · exact absurd h (by simp [undefinedName])

/-- Whatever is read of a statement takes nothing back. A stage is given the parameters its
    nest mentions, so it has wires for them. -/
theorem grows_followed : Followed fun _ => Grows := by
  refine grows_respected.followed (fun _ => .of_netlist rfl rfl) (fun _ _ => .of_netlist rfl rfl)
    fun _ hparams hfinish hstage hadd => ?_
  have hkind := kind_stageComponent hstage
  refine .trans (.of_addComponent (by rw [hkind]; simp) (fun other hother p hp => ?_) hadd)
    (.of_netlist rfl rfl)
  rw [hkind, ComponentKind.plan?, Option.some.injEq] at hother
  rw [← hother, (LoopNest.proper_of_finish hfinish).2.2] at hp
  exact (parameters_ok hparams p hp).1

/-- Reading a statement takes nothing back. -/
theorem grows_statement (s : Stmt) : Leads Grows (statement s) := grows_followed.statement s

end Statements

/-- The input that a signal of the bus is for the slave interface, if it is one. -/
def busInput? : String × Nat × Direction → Option (String × Shape)
  | (name, width, .input) => some (name, .uint width)
  | (_, _, .output) => none

/-- The inputs of the bus. -/
def busInputs : List (String × Shape) := busPorts.filterMap busInput?

/-- While the ports of the bus are added the slave interface keeps those it has. -/
theorem addBusPorts_ok {ports : List (String × Nat × Direction)} {s s' : Component}
    {n n' : Netlist}
    (h : ports.foldlM (fun ((slave, n) : Component × Netlist) (name, width, direction) => do
      let shape := Shape.uint width
      let slave ←
        match direction with
        | .input => slave.addInput name shape
        | .output => slave.addOutput name shape
      return (slave, ← n.addPort name shape direction)) (s, n) = .ok (s', n')) :
    n' = { n with ports := n.ports ++ ports.map fun p => (p.1, .uint p.2.1, p.2.2) } ∧
      s'.kind = s.kind ∧ s'.inputs = s.inputs ++ ports.filterMap busInput? ∧ s.Extends s' ∧
      ∀ p ∈ ports, s'.port? p.1 = some (.uint p.2.1, p.2.2) := by
  induction ports generalizing s n with
  | nil =>
      rcases Except.ok.inj h with ⟨⟩
      exact ⟨by rw [List.map_nil, List.append_nil], rfl, (List.append_nil _).symm, .refl _,
        List.forall_mem_nil _⟩
  | cons p rest ih =>
      rcases p with ⟨name, width, direction⟩
      rw [List.foldlM_cons] at h
      rcases Fallible.bind_ok.mp h with ⟨⟨d, m⟩, hstep, hrest⟩
      -- One port: it is added to the slave interface on its side, and to the design.
      have hadded : d.kind = s.kind ∧
          d.inputs = s.inputs ++ (busInput? (name, width, direction)).toList ∧ s.Extends d ∧
          d.port? name = some (.uint width, direction) ∧
          n.addPort name (.uint width) direction = .ok m := by
        cases direction with
        | input =>
            rcases Fallible.bind_ok.mp hstep with ⟨d', hd, hport⟩
            rcases Fallible.bind_ok.mp hport with ⟨m', hm, hpair⟩
            rcases Except.ok.inj hpair with ⟨⟩
            exact ⟨Component.kind_addInput hd, by rw [(Component.addInput_ok hd).2]; rfl,
              .addInput hd, by rw [Component.port?_addInput hd, if_pos rfl], hm⟩
        | output =>
            rcases Fallible.bind_ok.mp hstep with ⟨d', hd, hport⟩
            rcases Fallible.bind_ok.mp hport with ⟨m', hm, hpair⟩
            rcases Except.ok.inj hpair with ⟨⟩
            exact ⟨Component.kind_addOutput hd,
              by rw [(Component.addOutput_ok hd).2]; exact (List.append_nil _).symm,
              .addOutput hd, by rw [Component.port?_addOutput hd, if_pos rfl], hm⟩
      rcases hadded with ⟨hkind, hinputs, hextends, hport, hm⟩
      rcases Netlist.addPort_ok hm with rfl
      rcases ih hrest with ⟨hsame, hkind', hinputs', hextends', hports⟩
      refine ⟨?_, hkind'.trans hkind, ?_, hextends.trans hextends',
        List.forall_mem_cons.mpr ⟨hextends' _ _ hport, hports⟩⟩
      · rw [hsame, List.map_cons]
        simp only [List.append_assoc, List.singleton_append]
      · rw [hinputs', hinputs, List.append_assoc]
        cases direction <;> rfl

/-- The connection of one of the ports of the bus. -/
def busConnection (index : Nat) : String × Nat × Direction → Connection
  | (name, _, .input) => ⟨.port index name, .endpoint (.top name)⟩
  | (name, _, .output) => ⟨.top name, .endpoint (.port index name)⟩

/-- The ports of the bus are connected to ports of the slave interface one by one. -/
theorem connectBus_eq {ports : List (String × Nat × Direction)} {n : Netlist} {index : Nat} :
    ports.foldl (fun n (name, _, direction) =>
      match direction with
      | .input => n.connect (.port index name) (.endpoint (.top name))
      | .output => n.connect (.top name) (.endpoint (.port index name))) n
      = { n with connections := n.connections ++ ports.map (busConnection index) } := by
  induction ports generalizing n with
  | nil => rw [List.foldl_nil, List.map_nil, List.append_nil]
  | cons p rest ih =>
      rcases p with ⟨name, width, direction⟩
      rw [List.foldl_cons, ih, List.map_cons, List.append_cons]
      cases direction <;> rfl

/-- The slave interface is the component behind all others, with the ports of the bus. -/
theorem addBus_inv {n m : Netlist} {index : Nat} (h : addBus n = .ok (m, index)) :
    ∃ s, s.kind = .slaveInterface ∧ s.inputs = busInputs ∧
      (∀ p ∈ busPorts, s.port? p.1 = some (.uint p.2.1, p.2.2)) ∧
      index = n.components.length ∧ m = { n with
        components := n.components ++ [s]
        ports := n.ports ++ busPorts.map fun p => (p.1, .uint p.2.1, p.2.2)
        connections := n.connections ++ busPorts.map (busConnection index)
        slave := some index } := by
  rcases Fallible.bind_ok.mp h with ⟨slave, hslave, h₁⟩
  rcases Fallible.bind_ok.mp h₁ with ⟨⟨slave', n'⟩, hports, h₂⟩
  rcases Fallible.bind_ok.mp h₂ with ⟨⟨n'', i⟩, hadd, h₃⟩
  rcases addBusPorts_ok hports with ⟨rfl, hkind, hinputs, _, hbus⟩
  rw [Component.kind_addOutput hslave, Component.kind_ofKind] at hkind
  -- Before the bus it has one port, which is an output.
  rw [(Component.addOutput_ok hslave).2] at hinputs
  rcases Netlist.addComponent_ok hadd with ⟨rfl, rfl⟩
  rcases Except.ok.inj h₃ with ⟨⟩
  refine ⟨slave', hkind, hinputs, hbus, rfl, ?_⟩
  refine connectBus_eq.trans ?_
  rw [if_pos hkind]

/-- The slave interface is there from the start and has the ports of the bus. -/
theorem addBus_ok {n m : Netlist} {index : Nat} (h : addBus n = .ok (m, index)) :
    m.slave = some index ∧ m.registers = n.registers ∧ m.stagePlans = n.stagePlans ∧
      ∃ s, m.component index = .ok s ∧ ∀ p ∈ busPorts, s.port? p.1 = some (.uint p.2.1, p.2.2) := by
  rcases addBus_inv h with ⟨s, hkind, _, hbus, rfl, rfl⟩
  refine ⟨rfl, rfl, ?_, s, ?_, hbus⟩
  · simp only [Netlist.stagePlans, List.map_append, List.map_cons, List.map_nil,
      List.filterMap_append]
    rw [hkind]
    exact List.append_nil _
  · rw [Netlist.component_ok]
    exact List.getElem?_concat_length

end Construction

namespace Netlist

/-- A design holds a parameter: it has a place in the register map, an output of the
    slave interface with a given number, and a wire, all of one shape. -/
structure Holds (n : Netlist) (slave : Nat) (name : String) (shape : Shape) (e : RegisterEntry) :
    Prop where
  entry : n.registers.find? name = some e
  elem : e.elem = shape.elem
  extents : e.extents = shape.extents
  narrow : e.elem.bits ≤ busWidth
  past : ∃ past, e.past = .ok past ∧ past ≤ n.registers.cursor
  wire : n.wire? (wireName name) = some shape
  port : ∃ s, n.component slave = .ok s ∧ s.port? name = some (shape, .output)
  plain : shape.isStream = false

end Netlist

namespace Construction

variable {c c' : Construction} {u : Unit}

/-- What a design holds is not taken back. -/
theorem Grows.holds (h : Grows c c') {name : String} {shape : Shape} {e : RegisterEntry}
    (hheld : c.netlist.Holds c.slave name shape e) : c'.netlist.Holds c.slave name shape e where
  entry := h.register name e hheld.entry
  elem := hheld.elem
  extents := hheld.extents
  narrow := hheld.narrow
  past := by
    rcases hheld.past with ⟨past, hpast, hle⟩
    exact ⟨past, hpast, hle.trans h.cursor⟩
  wire := h.wire _ _ hheld.wire
  port := by
    rcases hheld.port with ⟨s, hs, hport⟩
    rcases h.ports s hs with ⟨s', hs', hextends⟩
    exact ⟨s', hs', hextends _ _ hport⟩
  plain := hheld.plain

/-- A parameter gets its place, its output and its wire one after the other. -/
theorem addParameter_holds {arg : Argument} {shape : Shape}
    (h : addParameter arg shape c = .ok (u, c')) :
    ∃ e, c'.netlist.Holds c.slave (printName arg.name) shape e := by
  have hG := grows_respected
  rcases addParameter_ok h with ⟨hplain, r, d, e, hr, houtput, hwire, hlast⟩
  -- Whatever comes later keeps what the three steps have left.
  have hthird : Grows e c' := hlast ▸ hG.connect _ _ _
  have hsecond : Grows d c' := (hG.addWire _ _ _ hwire).trans hthird
  have hfirst : Grows { c with netlist := { c.netlist with registers := r.1 } } c' :=
    (hG.slaveOutput _ _ _ houtput).trans hsecond
  rcases updateSlave_ok houtput with ⟨s, s', hs, hs', rfl⟩
  rcases tryUpdate_ok hwire with ⟨n, hn, rfl⟩
  rcases RegisterMap.allocate_ok hr with ⟨hnarrow, _, hentry, hpast, _⟩
  rcases hsecond.ports s' (Netlist.component_setComponent hs) with ⟨s'', hs'', hextends⟩
  refine ⟨r.2, hfirst.register _ _ (RegisterMap.find?_allocate hr).1, by rw [hentry],
    by rw [hentry], by rw [hentry]; exact hnarrow,
    ⟨_, hpast, hfirst.cursor⟩,
    hthird.wire _ _ (Netlist.wire?_addWire hn).1, ⟨s'', hs'', hextends _ _ ?_⟩, hplain⟩
  rw [Component.port?_addOutput hs', if_pos rfl]

/-- An argument that is no stream is held by the slave interface. -/
theorem addArgument_holds {arg : Argument} (hparameter : arg.isStream = false)
    (h : addArgument arg c = .ok (u, c')) :
    ∃ shape e, Shape.ofStencilType arg.stencilType = .ok shape ∧
      c'.netlist.Holds c.slave (printName arg.name) shape e := by
  rcases lift_bind_ok.mp h with ⟨shape, hok, hadd⟩
  rw [hparameter, Bool.not_false, if_pos rfl] at hadd
  rcases addParameter_holds hadd with ⟨e, he⟩
  exact ⟨shape, e, hok, he⟩

end Construction

/-- The slave interface of a design has the ports of the bus, and the design holds all
    parameters of its kernel. Its stages know them by their shapes. -/
theorem Netlist.holds_of_ofKernel {k : Kernel} {n : Netlist} (h : ofKernel k = .ok n) :
    ∃ slave s, n.slaveInterface = .ok slave ∧ n.component slave = .ok s ∧
      (∀ p ∈ busPorts, s.port? p.1 = some (.uint p.2.1, p.2.2)) ∧ n.registers.Distinct ∧ n.Known ∧
      ∀ arg ∈ k.args, arg.isStream = false → ∃ shape e,
        Shape.ofStencilType arg.stencilType = .ok shape ∧
          n.Holds slave (printName arg.name) shape e := by
  have hG := Construction.grows_respected
  rcases ofKernel_ok h with ⟨bus, slave, c, hbus, hkernel, _, rfl, _⟩
  rcases Construction.addBus_ok hbus with ⟨hnumber, hregisters, hplans, s₀, hs₀, hports⟩
  have hargs : Construction.Leads Construction.Grows (k.args.forM Construction.addArgument) :=
    hG.forM hG.addArgument
  have hbody := Construction.grows_statement k.body
  have hall := hG.bind hargs (fun _ => hbody) _ _ _ hkernel
  rcases hall.ports s₀ hs₀ with ⟨s, hs, hextends⟩
  refine ⟨slave, s, ?_, hs, fun p hp => hextends _ _ (hports p hp), hall.distinct ?_,
    hall.known ?_, fun arg harg hparameter => ?_⟩
  · rw [slaveInterface, hall.number]
    simp only [hnumber]
  · rw [hregisters]
    exact List.Pairwise.nil
  · intro plan hplan
    rw [hplans] at hplan
    exact absurd hplan List.not_mem_nil
  · rcases bind_ok.mp hkernel with ⟨_, d, hread, hbodyrun⟩
    -- The parameter is placed when its argument is added, and all that follows keeps it.
    rcases hG.forM_mem hG.addArgument hread harg with ⟨d₁, d₂, v, hbefore, hstep, hbehind⟩
    rcases Construction.addArgument_holds hparameter hstep with ⟨shape, e, hshape, hheld⟩
    have hslave : d₁.slave = slave := hbefore.slave
    have hslave' : d₂.slave = slave := (hG.addArgument arg _ _ _ hstep).slave.trans hslave
    have hlater := hbehind.trans (hbody _ _ _ hbodyrun)
    rw [hslave, ← hslave'] at hheld
    exact ⟨shape, e, hshape, hslave' ▸ hlater.holds hheld⟩

end StencilRtl
