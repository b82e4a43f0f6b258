import StencilRtl.Proofs.Netlist.Orderly
import StencilRtl.Proofs.Registers.Allocation

/-!
# Registers of a Kernel

The register map of a design holds the parameters of its kernel and nothing else.

An entry is only added where an argument that is no stream is read. Streams are
ports with adapters, and statements only add blocks and connect them, so they
leave the map alone. `Stays` says that of a step, and it is all that has to be
known of the steps.

## Main definitions

* `Kernel.parameters`: The arguments of a kernel that are no streams.
* `Argument.Registered`: An entry is that of an argument.
* `Construction.Stays`: A step that leaves the register map alone.

## Theorems

* `stays_followed`: Reading a statement leaves the map alone.
* `Netlist.registers_of_ofKernel`: The entries are those of the parameters.
-/

namespace StencilRtl

/-- The arguments of a kernel that are no streams. -/
def Kernel.parameters (k : Kernel) : List Argument := k.args.filter fun a => a.isStream = false

/-- An entry is that of an argument. -/
def Argument.Registered (a : Argument) (e : RegisterEntry) : Prop :=
  ∃ shape, Shape.ofStencilType a.stencilType = .ok shape ∧ e.name = printName a.name ∧
    e.elem = shape.elem ∧ e.extents = shape.extents

namespace Construction

open Leads

/-- A step that leaves the register map alone. -/
def Stays (c c' : Construction) : Prop := c'.netlist.registers = c.netlist.registers

theorem stays_chains : Chains Stays := ⟨fun _ => rfl, fun h h' => h'.trans h⟩

theorem stays_of_addComponent {c : Construction} {component : Component} {n : Netlist}
    {index : Nat} (h : c.netlist.addComponent component = .ok (n, index)) :
    n.registers = c.netlist.registers := by
  rw [(Netlist.addComponent_ok h).2]

theorem stays_addStateful {component : Component} : Leads Stays (addStateful component) := by
  intro c index c' h
  rcases addStateful_inv h with ⟨n, s, s', hadd, _, _, rfl⟩
  exact (stays_of_addComponent hadd : n.registers = _)

theorem stays_addPort {name : String} {shape : Shape} {direction : Direction} :
    Leads Stays (addPort name shape direction) := by
  intro c u c' h
  rcases tryUpdate_ok h with ⟨n, hn, rfl⟩
  rcases Netlist.addPort_ok hn with rfl
  rfl

/-- The steps inside a design add blocks and wires. -/
theorem stays_interior : Interior (fun _ => True) Stays where
  toChains := stays_chains
  allows _ := trivial
  connect _ _ _ _ := rfl
  wire h := by
    rcases Netlist.addWire_ok h with ⟨_, rfl⟩
    rfl
  component _ _ h := stays_of_addComponent h
  router _ := stays_addStateful

theorem stays_connect {target source : Endpoint} : Leads Stays (connect target source) :=
  stays_interior.connects trivial

/-- A stream is no parameter. -/
theorem stays_addInputStream (arg : Argument) (shape : Shape) :
    Leads Stays (addInputStream arg shape) := by
  have hI := stays_interior
  exact lift_bind fun _ _ => lift_bind fun _ _ => hI.bind stays_addStateful fun _ =>
    hI.bind stays_addPort fun _ => hI.bind stays_connect fun _ => hI.addQueued trivial

theorem stays_addOutputStream (arg : Argument) (shape : Shape) :
    Leads Stays (addOutputStream arg shape) :=
  stays_chains.bind (change fun _ => rfl) fun _ => stays_interior.addWire

theorem stays_addOutputAdapter (output : NestOutput) (storeExtents : List Nat) :
    Leads Stays (addOutputAdapter output storeExtents) := by
  have hI := stays_interior
  exact lift_bind fun _ _ => lift_bind fun _ _ => lift_bind fun _ _ =>
    hI.bind stays_addStateful fun _ => hI.bind stays_addPort fun _ => hI.bind stays_connect fun _ =>
      stays_connect

theorem stays_addStage (nest : LoopNest) : Leads Stays (addStage nest) := by
  have hI := stays_interior
  refine get_bind fun _ => lift_bind fun _ _ => lift_bind fun _ _ => lift_bind fun _ _ =>
    hI.bind stays_addStateful fun _ => hI.bind (hI.forM fun _ => stays_connect) fun _ =>
      hI.bind (hI.forM fun _ => stays_connect) fun _ => hI.bind (hI.addQueued trivial) fun _ =>
        get_bind fun _ => hI.bind (change fun _ => rfl) fun _ => ?_
  split
  · exact stays_addOutputAdapter _ _
  · exact hI.pure _

/-- Reading a statement leaves the register map alone. -/
theorem stays_followed : Followed fun _ => Stays where
  refl := stays_chains.refl
  trans := stays_chains.trans
  producer _ _ := rfl
  begins _ _ := rfl
  continues _ _ := rfl
  ends c u c' h := by
    rcases endNest_ok h with ⟨_, rfl⟩ | ⟨nest, _, hadd⟩
    · exact stays_chains.refl c'
    · exact stays_addStage nest { c with nest := none } u c' hadd
  realized _ := stays_interior.addWire
  operation name args c u c' h := by
    cases operation_ok h with
    | read | write => rfl
    | lineBuffer _ hrun => exact stays_interior.lineBuffer _ c () c' hrun
    | dispatch _ hrun => exact stays_interior.dispatch _ c () c' hrun

variable {c c' : Construction} {u : Unit}

/-- A parameter gets an entry behind those before. -/
theorem addParameter_registers {arg : Argument} {shape : Shape}
    (hshape : Shape.ofStencilType arg.stencilType = .ok shape)
    (h : addParameter arg shape c = .ok (u, c')) :
    ∃ e, arg.Registered e ∧
      c'.netlist.registers.entries = c.netlist.registers.entries ++ [e] := by
  rcases addParameter_ok h with ⟨_, r, d, e, hr, houtput, hwire, rfl⟩
  have hshown : d.netlist.registers = r.1 := by
    rcases updateSlave_ok houtput with ⟨s, s', _, _, rfl⟩
    rfl
  have hwired : Stays d e := stays_interior.addWire d () e hwire
  rcases RegisterMap.allocate_ok hr with ⟨_, _, hentry, _, hentries⟩
  refine ⟨r.2, ⟨shape, hshape, by rw [hentry], by rw [hentry], by rw [hentry]⟩, ?_⟩
  rw [Netlist.connect, hwired, hshown]
  exact hentries

/-- A stream has none. -/
theorem addArgument_registers {arg : Argument} (h : addArgument arg c = .ok (u, c')) :
    ∃ entries, List.Forall₂ Argument.Registered ([arg].filter fun a => a.isStream = false) entries ∧
      c'.netlist.registers.entries = c.netlist.registers.entries ++ entries := by
  rcases lift_bind_ok.mp h with ⟨shape, hshape, hadd⟩
  split at hadd
  · next hplain =>
    rcases addParameter_registers hshape hadd with ⟨e, he, hentries⟩
    refine ⟨[e], ?_, hentries⟩
    rw [List.filter_cons_of_pos (by simpa using hplain)]
    exact .cons he .nil
  -- A stream only gets an adapter, which leaves the map alone.
  next hstream =>
  refine ⟨[], ?_, ?_⟩
  · rw [List.filter_cons_of_neg (by simpa using hstream)]
    exact .nil
  split at hadd
  · exact absurd (lift_ok.mp hadd).1 (by simp [unsupported])
  split at hadd
  · rw [List.append_nil, stays_addOutputStream _ _ _ _ _ hadd]
  · rw [List.append_nil, stays_addInputStream _ _ _ _ _ hadd]

/-- All parameters have entries, in their order. -/
theorem forM_registers {args : List Argument} (h : args.forM addArgument c = .ok (u, c')) :
    ∃ entries, List.Forall₂ Argument.Registered (args.filter fun a => a.isStream = false) entries ∧
      c'.netlist.registers.entries = c.netlist.registers.entries ++ entries := by
  induction args generalizing c with
  | nil =>
      rcases Except.ok.inj h with ⟨⟩
      exact ⟨[], .nil, (List.append_nil _).symm⟩
  | cons arg rest ih =>
      rcases bind_ok.mp h with ⟨_, d, harg, hrest⟩
      rcases addArgument_registers harg with ⟨first, hfirst, hd⟩
      rcases ih hrest with ⟨others, hothers, hentries⟩
      refine ⟨first ++ others, ?_, by rw [hentries, hd, List.append_assoc]⟩
      rw [← List.singleton_append, List.filter_append]
      exact List.rel_append hfirst hothers

end Construction

/-- The entries of the register map of a design are those of the parameters of its kernel. -/
theorem Netlist.registers_of_ofKernel {k : Kernel} {n : Netlist} (h : ofKernel k = .ok n) :
    List.Forall₂ Argument.Registered k.parameters n.registers.entries := by
  rcases ofKernel_ok h with ⟨bus, slave, c, hbus, hkernel, _, rfl, _⟩
  rcases bind_ok.mp hkernel with ⟨_, d, hargs, hbody⟩
  rcases Construction.forM_registers hargs with ⟨entries, hall, hd⟩
  have hc : c.netlist.registers = d.netlist.registers :=
    Construction.stays_followed.statement k.body d _ c hbody
  have hempty : bus.registers.entries = [] := by
    rw [(Construction.addBus_ok hbus).2.1]
    rfl
  rw [hc, hd]
  simp only [hempty, List.nil_append]
  exact hall

end StencilRtl
