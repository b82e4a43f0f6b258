import StencilRtl.Proofs.Netlist.Growth
import StencilRtl.Proofs.Sharing.Components

/-!
# Stages of a Design

What the component of a stage looks like in a finished design.

A stage gets its ports when it is added, and only the slave interface gets more of them
later. So the component of a stage is what is made of its plan, to the end. The plan has
passed its check, the streams it reads have wires, and so have its parameters, which are no
streams. No wire carries the external form of a stream, so the streams are internal ones.

## Main definitions

* `StagePlan.Proper`: What holds of the plan of every stage.
* `Construction.Supplies`: The streams and parameters of a plan have wires.
* `Construction.Staged`: The stages of a design are made of their plans, which are supplied.

## Theorems

* `staged_respected`, `staged_followed`: Reading a statement keeps a design staged.
* `Netlist.staged_of_ofKernel`: The stages of a design are made of proper plans.
-/

namespace StencilRtl

/-- A plan passes its check, reads internal streams, and has parameters that are no streams. -/
structure StagePlan.Proper (p : StagePlan) : Prop where
  valid : p.validate = .ok ()
  inputs : ∀ i ∈ p.inputs, i.shape.kind = .stream
  output : p.output.shape.kind = .stream
  params : ∀ q ∈ p.params, q.2.isStream = false

namespace Construction

/-- The streams a plan reads and its parameters have wires of their shapes. -/
structure Supplies (n : Netlist) (p : StagePlan) : Prop where
  inputs : ∀ i ∈ p.inputs, n.wire? (wireName i.port) = some i.shape ∧ i.shape.isStream = true
  params : ∀ q ∈ p.params, n.wire? (wireName q.1) = some q.2 ∧ q.2.isStream = false

/-- All stages are made of plans that have passed their check and are supplied, and so is what
    the nest reads. -/
structure Staged (c : Construction) : Prop where
  slave : ∃ s, c.netlist.component c.slave = .ok s ∧ s.kind = .slaveInterface
  stages : ∀ d ∈ c.netlist.components, ∀ p, d.kind = .stage p →
    stageComponent p = .ok d ∧ p.validate = .ok () ∧ Supplies c.netlist p
  nest : ∀ nest ∈ c.nest, ∀ i ∈ nest.inputs,
    c.netlist.wire? (wireName i.port) = some i.shape ∧ i.shape.isStream = true

namespace Staged

variable {c : Construction}

/-- More wires and components do not matter, as long as there are no more stages. -/
theorem grow (h : Staged c) {n : Netlist}
    (hslave : ∃ s, n.component c.slave = .ok s ∧ s.kind = .slaveInterface)
    (hcomponents : ∀ d ∈ n.components, ∀ p, d.kind = .stage p → d ∈ c.netlist.components)
    (hwires : ∀ name shape, c.netlist.wire? name = some shape → n.wire? name = some shape) :
    Staged { c with netlist := n } where
  slave := hslave
  stages d hd p hkind := by
    rcases h.stages d (hcomponents d hd p hkind) p hkind with ⟨hmade, hvalid, hsupplied⟩
    exact ⟨hmade, hvalid, fun i hi => (hsupplied.inputs i hi).imp_left (hwires _ _),
      fun q hq => (hsupplied.params q hq).imp_left (hwires _ _)⟩
  nest nest hnest i hi := (h.nest nest hnest i hi).imp_left (hwires _ _)

/-- The slave interface may get more ports. -/
theorem setSlave (h : Staged c) {s s' : Component} (hs : c.netlist.component c.slave = .ok s)
    (hkind : s'.kind = s.kind) :
    Staged { c with netlist := c.netlist.setComponent c.slave s' } := by
  rcases h.slave with ⟨r, hr, hslave⟩
  rcases Except.ok.inj (hs.symm.trans hr) with rfl
  refine h.grow ⟨s', Netlist.component_setComponent hr, hkind.trans hslave⟩ (fun d hd p hp => ?_)
    fun _ _ hwire => hwire
  rcases List.mem_or_eq_of_mem_set hd with hd | rfl
  · exact hd
  · exact absurd (hp.symm.trans (hkind.trans hslave)) (by simp)

/-- Of what is behind the others in the list of components nothing else changes. -/
theorem slave_addComponent (h : Staged c) {d : Component} {n : Netlist} {index : Nat}
    (hadd : c.netlist.addComponent d = .ok (n, index)) :
    ∃ s, n.component c.slave = .ok s ∧ s.kind = .slaveInterface := by
  rcases h.slave with ⟨s, hs, hslave⟩
  rcases Netlist.addComponent_ok hadd with ⟨_, rfl⟩
  refine ⟨s, ?_, hslave⟩
  rw [Netlist.component_ok] at hs ⊢
  rw [List.getElem?_append_left (List.getElem?_eq_some_iff.mp hs).1, hs]

end Staged

/-- The primitive steps add no stages. -/
theorem staged_respected : Respected fun c c' => Staged c → Staged c' where
  refl _ h := h
  trans h h' hc := h' (h hc)
  outputs _ _ h := ⟨h.slave, h.stages, h.nest⟩
  connect _ _ _ h := h.grow h.slave (fun _ hd _ _ => hd) fun _ _ hwire => hwire
  wire hadd h := by
    have hwires := (Netlist.wire?_addWire hadd).2
    rcases Netlist.addWire_ok hadd with ⟨_, rfl⟩
    exact h.grow h.slave (fun _ hd _ _ => hd) hwires
  port hadd h := by
    rcases Netlist.addPort_ok hadd with rfl
    exact h.grow h.slave (fun _ hd _ _ => hd) fun _ _ hwire => hwire
  -- A component that is no stage is none of those that are asked about.
  component {c component n index} hstage _ hadd h := by
    have hslave := h.slave_addComponent hadd
    rcases Netlist.addComponent_ok hadd with ⟨_, rfl⟩
    refine h.grow hslave (fun d hd p hkind => ?_) fun _ _ hwire => hwire
    rcases List.mem_append.mp hd with hd | hd
    · exact hd
    · rw [← List.mem_singleton.mp hd, hkind] at hstage
      exact absurd hstage (by simp [ComponentKind.plan?])
  input hs hadd h := h.setSlave hs (Component.kind_addInput hadd)
  output hs hadd h := h.setSlave hs (Component.kind_addOutput hadd)
  register _ h := h.grow h.slave (fun _ hd _ _ => hd) fun _ _ hwire => hwire

/-- Whatever is read of a statement keeps a design staged. A nest becomes a stage that is
    supplied with what the nest reads. -/
theorem staged_followed : Followed fun _ c c' => Staged c → Staged c' := by
  refine staged_respected.followed (fun {c nest} hinputs h => ?_)
    (fun _ _ h => ⟨h.slave, h.stages, h.nest⟩)
    fun {c nest params plan output stage n index} hopen hparams hfinish hplan hadd h => ?_
  · -- What a nest reads it has read before, or it is a wire now.
    refine ⟨h.slave, h.stages, fun _ hsome i hi => ?_⟩
    rcases Option.some.inj hsome with rfl
    rcases hinputs i hi with ⟨before, hbefore, hi⟩ | hwire
    · exact h.nest before hbefore i hi
    · exact hwire
  · -- The nest has ended, and its stage stands behind all others.
    rcases LoopNest.proper_of_finish hfinish with ⟨hvalid, hplanInputs, hplanParams⟩
    have hsupplied : Supplies c.netlist plan := by
      refine ⟨fun i hi => h.nest nest hopen i (hplanInputs ▸ hi), fun q hq => ?_⟩
      rw [hplanParams] at hq
      exact parameters_ok hparams q hq
    have hslave := h.slave_addComponent hadd
    rcases Netlist.addComponent_ok hadd with ⟨_, rfl⟩
    refine ⟨hslave, fun d hd p hkind => ?_, fun _ hnone => absurd hnone (by simp)⟩
    rcases List.mem_append.mp hd with hd | hd
    · rcases h.stages d hd p hkind with ⟨hmade, hvalid, hsupplied⟩
      exact ⟨hmade, hvalid, hsupplied.inputs, hsupplied.params⟩
    · rw [List.mem_singleton.mp hd, kind_stageComponent hplan] at hkind
      rcases ComponentKind.stage.inj hkind with rfl
      rw [List.mem_singleton.mp hd]
      exact ⟨hplan, hvalid, hsupplied.inputs, hsupplied.params⟩

/-- A design with nothing but a slave interface is staged. -/
theorem staged_start {bus : Netlist} {name : String} {slave : Nat}
    (h : addBus (.empty name) = .ok (bus, slave)) : Staged ⟨bus, slave, none, none, []⟩ := by
  rcases addBus_inv h with ⟨s, hkind, _, _, rfl, rfl⟩
  refine ⟨⟨s, rfl, hkind⟩, fun d hd p hp => ?_, fun _ hnone => absurd hnone (by simp)⟩
  rw [List.mem_singleton.mp hd, hkind] at hp
  exact absurd hp (by simp)

end Construction

/-- The stages of a design are made of proper plans. -/
theorem Netlist.staged_of_ofKernel {k : Kernel} {n : Netlist} (h : ofKernel k = .ok n) :
    ∀ d ∈ n.components, ∀ p, d.kind = .stage p →
      Construction.stageComponent p = .ok d ∧ p.Proper := by
  intro d hd p hp
  rcases ofKernel_ok h with ⟨bus, slave, c, hbus, hkernel, _, rfl, _⟩
  have huniform := Construction.uniform_kernel k _ () c (Construction.uniform_start hbus) hkernel
  have hstaged := Construction.staged_respected.kernel Construction.staged_followed k _ () c
    hkernel (Construction.staged_start hbus)
  rcases hstaged.stages d hd p hp with ⟨hmade, hvalid, hsupplied⟩
  refine ⟨hmade, hvalid, fun i hi => ?_, ?_, fun q hq => (hsupplied.params q hq).2⟩
  · rcases hsupplied.inputs i hi with ⟨hwire, hstream⟩
    exact huniform.kind_eq hwire hstream
  · exact ((huniform.standard d hd).of_stage hp).2

end StencilRtl
