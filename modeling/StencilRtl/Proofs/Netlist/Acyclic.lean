import StencilRtl.Proofs.Netlist.Descent
import StencilRtl.Proofs.Netlist.OneProducer
import StencilRtl.Proofs.Netlist.Refusals

/-!
# Designs Without Circles

No kernel is refused for a circle of streams.

Reading a kernel and all checks but the last one are calm, so they do not speak of a circle
whatever else is wrong with the kernel. The last check takes a layered design, since reading
has kept it layered, and finds no edge that is left over.

## Theorems

* `Netlist.Layered.calm_validate`: The checks of a layered design do not find a circle.
* `Netlist.acyclic_of_kernel`: No kernel is refused for a circle, and streams do not run in one.
-/

namespace StencilRtl

namespace Netlist

/-- A layered design may fail its checks, but not for a circle of streams. -/
theorem Layered.calm_validate {n : Netlist} (h : n.Layered) : n.validate.Calm := by
  refine n.registers.calm_validate.bind fun _ => (Fallible.Calm.forM n.calm_checkConnection _).bind
    fun _ => (Fallible.Calm.forM n.calm_checkWire _).bind fun _ =>
      (Fallible.Calm.forM n.calm_checkComponent _).bind fun _ => ?_
  -- When the edges are known, those of a layered design can be taken away one after the other.
  refine (Fallible.Calm.mapM n.calm_flowEdge _).bind_ok fun edges hedges => ?_
  rw [if_pos (h.cyclicCore_eq hedges)]
  exact .pure _

/-- No kernel is refused because its streams run in a circle. Whatever design it is read as, no
stream runs in one there, because the design is layered: a stream that comes out of a component
other than a queue goes into a queue or out of the design, and a wire that is fed by another wire
was declared later than that one. -/
theorem acyclic_of_kernel (k : Kernel) :
    ofKernel k ≠ .error (.error (.malformed .combinationalCycle)) ∧
      ∀ bus slave c, Construction.addBus (.empty (printName k.name)) = .ok (bus, slave) →
        Construction.kernel k ⟨bus, slave, none, none, []⟩ = .ok ((), c) →
          c.netlist.Layered ∧ ∀ a, ¬Relation.TransGen c.netlist.FlowsTo a a := by
  have hlayered : ∀ bus slave c,
      Construction.addBus (.empty (printName k.name)) = .ok (bus, slave) →
        Construction.kernel k ⟨bus, slave, none, none, []⟩ = .ok ((), c) → c.netlist.Layered :=
    fun _ _ c hbus hkernel =>
      (Construction.layered_kernel k _ () c (Construction.layered_start hbus) hkernel).netlist
  refine ⟨?_, fun bus slave c hbus hkernel => ?_⟩
  · -- Only the check of the whole design could report a circle, and it finds none.
    refine (Construction.calm_addBus _).bind_ok fun ⟨bus, slave⟩ hbus =>
      (Construction.calm_kernel k _).bind_ok fun ⟨_, c⟩ hkernel => ?_
    simp only []
    split
    · exact Fallible.calm_unsupported _
    · exact (hlayered bus slave c hbus hkernel).calm_validate.bind fun _ => .pure _
  · have h := hlayered bus slave c hbus hkernel
    exact ⟨h, h.acyclic⟩

/-- In the design of `handedOn` a stream flows from a wire to its other name, and nowhere back. -/
theorem acyclic_of_kernel_handedOn : ∃ bus slave c,
    Construction.addBus (.empty (printName (handedOn []).name)) = .ok (bus, slave) ∧
      Construction.kernel (handedOn []) ⟨bus, slave, none, none, []⟩ = .ok ((), c) ∧
      c.netlist.FlowsTo (.top "wire_src_stream") (.top "wire_src_stream_to_x") ∧
      ¬Relation.TransGen c.netlist.FlowsTo (.top "wire_src_stream_to_x") (.top "wire_src_stream") := by
  have haccepted : (ofKernel (handedOn [])).map (fun n =>
      decide (∃ c ∈ n.connections, n.flowEdge c =
        .ok [(.top "wire_src_stream", .top "wire_src_stream_to_x")])) = .ok true := by
    decide +kernel
  rcases Fallible.exists_of_map haccepted with ⟨n, hn, hedge⟩
  rcases ofKernel_ok hn with ⟨bus, slave, c, hbus, hkernel, _, rfl, _⟩
  rcases of_decide_eq_true hedge with ⟨connection, hconnection, hflows⟩
  have hforth : c.netlist.FlowsTo (.top "wire_src_stream") (.top "wire_src_stream_to_x") :=
    ⟨connection, hconnection, _, hflows, List.mem_singleton_self _⟩
  exact ⟨bus, slave, c, hbus, hkernel, hforth, fun hback =>
    ((acyclic_of_kernel (handedOn [])).2 bus slave c hbus hkernel).2 _ (.head hforth hback)⟩

end Netlist

end StencilRtl
