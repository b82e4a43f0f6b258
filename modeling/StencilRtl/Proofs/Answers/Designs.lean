import StencilRtl.Proofs.Answers.Reading

/-!
# Designs That Answer

The design of a moderate kernel, up to the checks it ends with.

The checks of a design compare the widths of what is connected, look up components by their
numbers and sum up the register map. In a small design all widths are words, all numbers in range
and the map is sound. So a moderate kernel is refused or becomes a small design.

## Main definitions

* `Kernel.Moderate`: A kernel that asks for nothing that gives way.

## Theorems

* `Netlist.Small.answers_validate`: The checks of a small design answer.
* `Netlist.answers_ofKernel`: The design of a moderate kernel is small.
-/

namespace StencilRtl

open Fallible

/-- A kernel that asks for nothing that gives way. The arguments and all nodes of the body are
    moderate, and the parameters fit the register map. -/
structure Kernel.Moderate (k : Kernel) : Prop where
  arguments : ∀ a ∈ k.args, a.Moderate
  parameters : parameterBase + (k.args.map Argument.bytes).sum < Word.limit
  body : k.body.Moderate

instance (k : Kernel) : Decidable k.Moderate :=
  decidable_of_iff ((∀ a ∈ k.args, a.Moderate) ∧
      parameterBase + (k.args.map Argument.bytes).sum < Word.limit ∧ k.body.Moderate)
    ⟨fun h => ⟨h.1, h.2.1, h.2.2⟩, fun h => ⟨h.arguments, h.parameters, h.body⟩⟩

namespace Netlist

namespace Small

variable {n : Netlist} (h : n.Small)

include h

theorem answers_component {index : Nat} (hindex : index < n.components.length) :
    Answers (n.component index) Component.Fine := by
  rcases h.component_of_lt hindex with ⟨c, hc, hfine⟩
  exact .of_ok hc hfine

theorem answers_endpoint {e : Endpoint} (he : e.Within n.components.length) :
    Answers (n.endpoint e) fun r => r.1.Small := by
  cases e with
  | top name =>
      rw [endpoint]
      split
      · next shape hwire => exact h.wire? hwire
      split
      · next shape direction hport => exact h.port? hport
      · trivial
  | port index name =>
      refine (h.answers_component he).bind fun c hc => ?_
      split
      · next shape direction hport =>
        have hshape : c.portShape name = .ok shape := by rw [Component.portShape, hport]
        exact hc.ports.portShape hshape
      · trivial

theorem answers_signalBase {e : Endpoint} (he : e.Within n.components.length) :
    Answers (n.signalBase e) fun _ => True := by
  cases e with
  | top name => trivial
  | port index name => exact (h.answers_component he).bind fun _ _ => trivial

omit h in
/-- Small shapes can be compared. -/
theorem answers_carrySame {a b : Shape} (ha : a.Small) (hb : b.Small) :
    Answers (carrySame a b) fun _ => True := by
  unfold carrySame
  split
  · trivial
  split
  · trivial
  · exact .bind_of_ok ha.dataWidth_eq (.bind_of_ok hb.dataWidth_eq trivial)

theorem answers_checkConnection {c : Connection} (hc : c ∈ n.connections) :
    Answers (n.checkConnection c) fun _ => True := by
  have htarget := h.targets c hc
  refine (h.answers_endpoint htarget).bind fun target htargetShape => ?_
  simp only []
  split
  · exact (h.answers_signalBase htarget).bind fun _ _ => trivial
  split
  · trivial
  -- Only a source that is an endpoint has a shape to compare.
  next source hsource =>
  have hwithin := h.sources c hc source hsource
  refine (h.answers_endpoint hwithin).bind fun origin horiginShape => ?_
  split
  · exact (h.answers_signalBase hwithin).bind fun _ _ => trivial
  refine (answers_carrySame htargetShape horiginShape).bind fun same _ => ?_
  split
  · trivial
  · exact (h.answers_signalBase htarget).bind fun _ _ =>
      (h.answers_signalBase hwithin).bind fun _ _ => trivial

omit h in
theorem answers_checkWire (wire : String × Shape) : Answers (n.checkWire wire) fun _ => True := by
  unfold checkWire
  repeat' split
  all_goals simp

omit h in
theorem answers_checkComponent (component : Component × Nat) :
    Answers (n.checkComponent component) fun _ => True := by
  unfold checkComponent
  simp only []
  split <;> simp

theorem answers_flowNode {e : Endpoint} (he : e.Within n.components.length) :
    Answers (n.flowNode e) fun _ => True := by
  cases e with
  | top name => trivial
  | port index name => exact (h.answers_component he).bind fun _ _ => trivial

theorem answers_flowEdge {c : Connection} (hc : c ∈ n.connections) :
    Answers (n.flowEdge c) fun _ => True := by
  unfold flowEdge
  split
  · trivial
  next source hsource =>
  split
  · next fault hfault => exact (h.answers_endpoint (h.targets c hc)).ne_fault fault hfault
  · trivial
  split
  · refine (h.answers_flowNode (h.sources c hc source hsource)).bind fun start _ =>
      (h.answers_flowNode (h.targets c hc)).bind fun finish _ => ?_
    split <;> trivial
  · trivial

/-- The checks of a small design answer. -/
theorem answers_validate : Answers n.validate fun _ => True := by
  refine .bind_of_ok h.registers.validate ?_
  refine (Answers.forM fun _ hc => h.answers_checkConnection hc).bind fun _ _ =>
    (Answers.forM fun w _ => answers_checkWire w).bind fun _ _ =>
      (Answers.forM fun c _ => answers_checkComponent c).bind fun _ _ =>
        (Answers.mapM fun _ hc => h.answers_flowEdge hc).bind fun _ _ => ?_
  simp only []
  split <;> trivial

end Small

end Netlist

namespace Construction

/-- The slave interface comes first, and the whole register map is free. -/
theorem answers_addBus {start : Netlist} {room : Nat} (hstart : start.Small)
    (hfirst : start.components = []) (hfree : start.registers = .empty)
    (hroom : parameterBase + room < Word.limit) :
    Answers (addBus start) fun bus => Sturdy 0 room ⟨bus.1, bus.2, none, none, []⟩ := by
  have hbits : ∀ p ∈ busPorts, 0 < p.2.1 ∧ p.2.1 < 2 ^ 32 := by decide
  -- The loop adds each signal of the bus to the slave interface and to the design.
  refine ((Component.fine_ofKind _ (by trivial)).answers_addOutput Shape.small_bit).bind
    fun slave hslave => (Answers.foldlM (R := fun b : Component × Netlist => b.1.Fine ∧ b.2.Small ∧
      b.2.components = [] ∧ b.2.registers = .empty) ?_ ⟨hslave.1, hstart, hfirst, hfree⟩).bind ?_
  · rintro ⟨port, width, direction⟩ hp ⟨slave, n⟩ ⟨hslave, hn, hcomponents, hregisters⟩
    have hshape : (Shape.uint width).Small := Shape.small_uint (hbits _ hp).1 (hbits _ hp).2
    have hport : Answers (n.addPort port (.uint width) direction) fun m =>
        m.Small ∧ m.components = [] ∧ m.registers = .empty :=
      (hn.answers_addPort hshape).mono fun m hm =>
        ⟨hm.1, hm.2.1.trans hcomponents, hm.2.2.trans hregisters⟩
    cases direction with
    | input => exact (hslave.answers_addInput hshape).bind fun _ hs => hport.bind fun _ hm =>
        ⟨hs.1, hm⟩
    | output => exact (hslave.answers_addOutput hshape).bind fun _ hs => hport.bind fun _ hm =>
        ⟨hs.1, hm⟩
  rintro ⟨slave, n⟩ ⟨hslave, hn, hcomponents, hregisters⟩
  refine (hn.answers_addComponent hslave).bind ?_
  rintro ⟨m, index⟩ ⟨hm, hindex, hlength, hkept⟩
  -- Nothing has been added before, so the slave interface has the number zero.
  have hindex : index = 0 := by
    have hnumber : index = n.components.length := hindex
    rw [hnumber, hcomponents]
    rfl
  have hmany : 0 < m.components.length := by
    have hnumber : m.components.length = n.components.length + 1 := hlength
    omega
  have hcursor : m.registers.cursor = parameterBase := by
    rw [show m.registers = n.registers from hkept, hregisters]
    rfl
  -- The connections of the bus are the same whether they are made one by one or at once.
  have hsame := congrArg (fun d : Netlist => Sturdy 0 room ⟨d, index, none, none, []⟩)
    (@connectBus_eq busPorts m index)
  refine hsame.mpr ⟨{ hm with
    targets := List.forall_mem_append.mpr ⟨hm.targets, List.forall_mem_map.mpr ?_⟩
    sources := List.forall_mem_append.mpr ⟨hm.sources, List.forall_mem_map.mpr ?_⟩ }, hindex, hmany,
    hcursor ▸ hroom, fun _ hn => absurd hn (by simp), List.forall_mem_nil _⟩
  · rintro ⟨port, width, direction⟩ _
    cases direction with
    | input => exact hindex ▸ hmany
    | output => exact .top _
  · rintro ⟨port, width, direction⟩ _ e he
    cases direction with
    | input =>
        rcases Source.endpoint.inj he with rfl
        exact .top _
    | output =>
        rcases Source.endpoint.inj he with rfl
        exact hindex ▸ hmany

end Construction

/-- A moderate kernel is refused or becomes a small design. -/
theorem Netlist.answers_ofKernel {k : Kernel} (h : k.Moderate) {x : Fallible Netlist}
    (hx : ofKernel k = x) : Answers x Small := by
  have hkernel : Answering (Construction.Sturdy 0 ((k.args.map Argument.bytes).sum + 0))
      (Construction.kernel k) fun _ => Construction.Sturdy 0 0 :=
    (Construction.answers_addArguments h.arguments).bind fun _ =>
      Construction.answers_statement k.body h.body
  rw [Nat.add_zero] at hkernel
  rw [← hx]
  unfold ofKernel
  -- The bus of a fixed design would be computed here, and the whole design above.
  generalize hstart : empty (printName k.name) = start
  refine (Construction.answers_addBus (hstart ▸ small_empty _) (hstart ▸ rfl) (hstart ▸ rfl)
    h.parameters).bind fun ⟨bus, slave⟩ hbus =>
    (hkernel _ hbus).bind fun ⟨_, c⟩ hc => ?_
  simp only []
  split
  · trivial
  · exact hc.netlist.answers_validate.bind fun _ _ => hc.netlist

end StencilRtl
