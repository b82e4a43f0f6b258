import StencilRtl.Kernel.Builder
import StencilRtl.Proofs.Netlist.Delivery
import StencilRtl.Proofs.Netlist.Resolution

/-!
# One Producer Each

What drives the wires, the ports and the inputs of the design of a kernel.

A design begins with the slave interface on its bus, which is in order, and reading the
arguments and the body of a kernel keeps it in order. So nothing has more producers than
it should. That everything has one is checked in the end for wires and for the inputs of
components. Of output ports it is not checked, but they are connected where they are
declared.

A wire has more than one producer in one case only. A stream that is handed to its only
consumer without a queue gets a second name, and nothing keeps the kernel from writing a
stream of that name. Then the wire is driven by the wire of the first stream and by the
queue of what is written. Which streams have a second name and which are written can be
read off the calls a body evaluates.

## Main definitions

* `handedOn`: A kernel with a stream that has two names.

## Theorems

* `orderly_statement`, `orderly_kernel`: Reading keeps a construction in order.
* `Netlist.producers_of_ofKernel`: What drives the wires, ports and inputs of a design.
* `Netlist.exists_two_producers`: A wire with two producers.
-/

namespace StencilRtl

namespace Construction

open Ensures

variable {aliased written : String → Prop} {owed : List String}

/-- An operation on streams makes other names only of streams that are `aliased`, and writes
    only streams that are `written`. -/
theorem orderly_operation {name : String} {args : List Expr}
    (haliased : ∀ s ∈ Stmt.aliasesOf (name, args), aliased s)
    (hwritten : ∀ s ∈ Stmt.writesOf (name, args), written s) :
    Ensures (Orderly aliased written owed) (operation name args) fun _ =>
      Orderly aliased written owed := by
  intro c u c' ho h
  cases operation_ok h with
  -- A read leaves the output of the nest alone, and a write is where it gets one.
  | read _ _ _ hbefore hread =>
      refine ⟨ho.tidy, ho.slave, fun _ hsome output houtput => ?_⟩
      rcases Option.some.inj hsome with rfl
      exact ho.nest _ hbefore output (LoopNest.output_read hread ▸ houtput)
  | write hcall _ hstream _ hwrite =>
      refine ⟨ho.tidy, ho.slave, fun _ hsome output houtput => ?_⟩
      rcases Option.some.inj hsome with rfl
      rcases LoopNest.write_ok hwrite with ⟨_, rfl⟩
      rcases Option.some.inj houtput with rfl
      refine ⟨hstream, hwritten _ ?_⟩
      rw [Stmt.writesOf, if_pos rfl, hcall]
      exact List.mem_singleton_self _
  -- What the call writes or aliases is read off its own operands.
  | lineBuffer hcall hrun =>
      refine orderly_lineBuffer _ (hwritten _ ?_) c () c' ho hrun
      rw [Stmt.writesOf, if_neg (by decide), if_pos rfl, hcall]
      exact List.mem_singleton_self _
  | @dispatch call _ hcall hrun =>
      refine orderly_dispatch call (fun halias box hbox => haliased _ ?_)
        (fun halias box hbox => hwritten _ ?_) c () c' ho hrun
      · rw [Stmt.aliasesOf, if_pos rfl, hcall]
        refine List.mem_flatMap.mpr ⟨call, List.mem_singleton_self _, ?_⟩
        rw [if_pos halias]
        exact List.mem_map_of_mem hbox
      · rw [Stmt.writesOf, if_neg (by decide), if_neg (by decide), if_pos rfl, hcall]
        refine List.mem_flatMap.mpr ⟨call, List.mem_singleton_self _, ?_⟩
        rw [if_neg (by simp [halias])]
        exact List.mem_map_of_mem hbox

/-- Reading calls that make other names only of streams that are `aliased`, and write only
    streams that are `written`, keeps a construction in order. -/
theorem orderly_followed : Followed fun ops c c' =>
    (∀ op ∈ ops, (∀ s ∈ Stmt.aliasesOf op, aliased s) ∧ ∀ s ∈ Stmt.writesOf op, written s) →
      Orderly aliased written owed c → Orderly aliased written owed c' where
  refl _ _ h := h
  trans h h' hops ho := by
    rw [List.forall_mem_append] at hops
    exact h' hops.2 (h hops.1 ho)
  producer _ _ _ ho := ⟨ho.tidy, ho.slave, ho.nest⟩
  -- A nest begins without an output, and loops inside of it keep the one it has.
  begins _ hnone _ ho := by
    refine ⟨ho.tidy, ho.slave, fun _ hsome output houtput => ?_⟩
    rcases Option.some.inj hsome with rfl
    exact absurd (hnone.output.symm.trans houtput) (by simp [LoopNest.empty])
  continues hbefore hsame _ ho := by
    refine ⟨ho.tidy, ho.slave, fun _ hsome output houtput => ?_⟩
    rcases Option.some.inj hsome with rfl
    exact ho.nest _ hbefore output (hsame.output ▸ houtput)
  ends c u c' h _ ho := orderly_endNest c u c' ho h
  realized _ c u c' h _ ho := (orderly_addWire c u c' ho h).1
  operation name args c u c' h hop ho := by
    rcases hop _ (List.mem_singleton_self _) with ⟨haliased, hwritten⟩
    exact orderly_operation haliased hwritten c u c' ho h

/-- Reading a statement keeps a construction in order. -/
theorem orderly_statement (s : Stmt) :
    Ensures (Orderly (· ∈ s.aliases) (· ∈ s.writes) owed) (statement s) fun _ =>
      Orderly (· ∈ s.aliases) (· ∈ s.writes) owed := by
  intro c u c' ho h
  refine orderly_followed.statement s c u c' h (fun op hop => ⟨fun x hx => ?_, fun x hx => ?_⟩) ho
  · exact List.mem_flatMap.mpr ⟨op, hop, hx⟩
  · exact List.mem_flatMap.mpr ⟨op, hop, hx⟩

/-- The arguments of a kernel come before all other names of streams. -/
theorem orderly_kernel (k : Kernel) :
    Ensures (Orderly (fun _ => False) (fun _ => False) owed) (kernel k) fun _ =>
      Orderly (· ∈ k.body.aliases) (· ∈ k.body.writes) owed := by
  refine .bind (.forM fun arg _ => orderly_addArgument arg fun _ h => h) fun _ => ?_
  refine (orderly_statement k.body).weaken (fun _ h => ?_) fun _ _ h => h
  exact h.mono (fun _ => False.elim) fun _ => False.elim

end Construction

namespace Netlist

variable {n m : Netlist}

theorem length_producers_of_nodup (h : (n.connections.map Connection.target).Nodup)
    (e : Endpoint) : (n.producers e).length ≤ 1 := by
  have hcount := List.nodup_iff_count_le_one.mp h e
  rw [List.count, List.countP_map, List.countP_eq_length_filter] at hcount
  rw [producers, List.length_map]
  exact hcount

/-- The slave interface on its bus is a tidy design. -/
theorem tidy_of_addBus {aliased written : String → Prop} {name : String} {slave : Nat}
    (h : Construction.addBus (.empty name) = .ok (m, slave)) :
    m.Tidy aliased written [] ∧ ∃ s, m.component slave = .ok s := by
  rcases Construction.addBus_inv h with ⟨s, _, _, hports, rfl, rfl⟩
  have htargets : ((busPorts.map (Construction.busConnection 0)).map Connection.target).Nodup := by
    decide
  refine ⟨⟨List.nodup_nil, fun _ _ _ => rfl, fun c hc => ?_, fun e _ => ?_,
    fun other shape hmem => ?_, fun _ _ hwire => absurd hwire (by simp [wire?, empty])⟩, s, rfl⟩
  · rcases List.mem_map.mp hc with ⟨⟨port, width, direction⟩, hp, rfl⟩
    -- An input of the bus drives the slave interface, and an output is driven by it.
    cases direction with
    | input => exact knows_port.mpr ⟨s, _, rfl, hports _ hp⟩
    | output =>
        rw [Construction.busConnection, knows_top, declares, Bool.or_eq_true]
        refine .inl ?_
        rw [port?, Option.isSome_map, List.find?_isSome]
        exact ⟨_, List.mem_map_of_mem hp, decide_eq_true rfl⟩
  · exact length_producers_of_nodup htargets e
  · rcases List.mem_map.mp hmem with ⟨⟨port, width, direction⟩, hp, hsame⟩
    rw [Prod.mk.injEq, Prod.mk.injEq] at hsame
    rcases hsame with ⟨rfl, -, rfl⟩
    exact .inr (List.ne_nil_of_mem (mem_producers.mpr (List.mem_map_of_mem hp)))

namespace Tidy

variable {aliased written : String → Prop}

theorem length_eq_one {e : Endpoint} (h : n.Tidy aliased written [])
    (hwire : ∀ name shape, e = .top name → n.wire? name ≠ some shape)
    (hsome : n.producers e ≠ []) : (n.producers e).length = 1 :=
  Nat.le_antisymm (h.once e hwire) (List.length_pos_iff.mpr hsome)

/-- An output port has one producer. -/
theorem output_producers (h : n.Tidy aliased written []) {name : String} {shape : Shape}
    (hport : (name, shape, Direction.output) ∈ n.ports) :
    (n.producers (.top name)).length = 1 := by
  have hfound : ∃ p, n.port? name = some p := by
    refine Option.isSome_iff_exists.mp ?_
    rw [port?, Option.isSome_map, List.find?_isSome]
    exact ⟨_, hport, decide_eq_true rfl⟩
  rcases hfound with ⟨p, hp⟩
  refine h.length_eq_one (fun other s heq hwire => ?_) ?_
  · rcases Endpoint.top.inj heq with rfl
    exact absurd ((h.apart name p hp).symm.trans hwire) (by simp)
  · exact (h.served name shape hport).resolve_left List.not_mem_nil

/-- An input of a component has one producer. -/
theorem input_producers (h : n.Tidy aliased written []) (hvalid : n.validate = .ok ())
    {index : Nat} {c : Component} (hc : n.component index = .ok c) {name : String} {shape : Shape}
    (hinput : (name, shape) ∈ c.inputs) : (n.producers (.port index name)).length = 1 := by
  refine h.length_eq_one (fun _ _ heq => by cases heq) (isDriven_iff.mp ?_)
  have hport : (name, shape, Direction.input) ∈ c.ports :=
    List.mem_append_left _ (List.mem_map.mpr ⟨_, hinput, rfl⟩)
  exact (validate_ok hvalid).2.2 index c hc _ hport

/-- A queue drives only wires that carry streams. -/
theorem isStream_of_isQueue (hvalid : n.validate = .ok ()) {name stream : String} {shape : Shape}
    {s : Source} (hwire : n.wire? name = some shape) (hs : s ∈ n.producers (.top name))
    (hqueue : n.IsQueue stream s) : shape.isStream = true := by
  rcases hqueue with ⟨index, c, depth, out, rfl, hc, _, _, hport, hstream⟩
  rcases checkConnection_ok ((validate_ok hvalid).1 _ (mem_producers.mp hs))
    with ⟨t, ht, _, hsource⟩
  rcases hsource _ rfl with ⟨r, hr, _, hlines⟩
  -- Both ends are sites of a checked connection, so that they have the same lines.
  have htarget : t.shape = shape := by
    have hshape := ht.shape
    rw [endpoint, hwire] at hshape
    exact (Prod.mk.inj (Except.ok.inj hshape)).1.symm
  have hproducer : r.shape = out := by
    have hshape := hr.shape
    rcases Fallible.bind_ok.mp hshape with ⟨d, hd, hdeclared⟩
    rcases Except.ok.inj (hc.symm.trans hd) with rfl
    rw [hport] at hdeclared
    exact (Prod.mk.inj (Except.ok.inj hdeclared)).1.symm
  rw [← htarget, ← Shape.backward_iff, hlines, Shape.backward_iff, hproducer]
  exact hstream

/-- A wire has one producer, unless it carries a stream that is both another name of one and
    written. What drives a stream is a queue of that stream or the wire of another stream. -/
theorem wire_producers (h : n.Tidy aliased written []) (hvalid : n.validate = .ok ())
    {name : String} {shape : Shape} (hwire : (name, shape) ∈ n.wires) :
    ∃ stream, name = wireName stream ∧
      (¬(shape.isStream = true ∧ aliased stream ∧ written stream) →
        (n.producers (.top name)).length = 1) ∧
      (n.producers (.top name)).length ≤ 2 ∧
      (shape.isStream = true → ∀ s ∈ n.producers (.top name),
        n.IsQueue stream s ∨ n.IsOtherStream stream s) := by
  have hfound : n.wire? name = some shape := find?_fst_of_mem h.keyed hwire
  have hdriven := isDriven_iff.mp ((validate_ok hvalid).2.1 _ hwire)
  rcases h.fed name shape hfound with ⟨stream, origin, queue, rfl, hfed⟩
  refine ⟨stream, rfl, fun hsingle => ?_, ?_, fun hstream s hs => ?_⟩
  · rw [hfed.producers] at hdriven ⊢
    cases origin with
    | none =>
        cases queue with
        | none => exact absurd rfl hdriven
        | some q => rfl
    | some o =>
        cases queue with
        | none => rfl
        | some q =>
            -- Both together take a stream that is both.
            rcases hfed.queued q rfl with ⟨hqueue, hwritten⟩
            have hmem : q ∈ n.producers (.top (wireName stream)) := by
              rw [hfed.producers]
              exact List.mem_append_right _ (List.mem_singleton_self q)
            have hstream := isStream_of_isQueue hvalid hfound hmem hqueue
            refine absurd ⟨hstream, (hfed.joined hstream o rfl).1, ?_⟩ hsingle
            exact hwritten.resolve_right fun hnone => absurd (hnone hstream) (by simp)
  · rw [hfed.producers, List.length_append]
    exact Nat.add_le_add (Option.length_toList_le ..) (Option.length_toList_le ..)
  · rw [hfed.producers, List.mem_append, Option.mem_toList, Option.mem_toList] at hs
    rcases hs with hs | hs
    · exact .inr (hfed.joined hstream s hs).2
    · exact .inl (hfed.queued s hs).1

end Tidy

/-- Every output port and every input of a component has one producer, and so has every wire,
    unless one call of the kernel makes its stream another name of a stream and another one
    writes it. What drives the wire of a stream is its queue or the wire of another stream. -/
theorem producers_of_ofKernel {k : Kernel} {n : Netlist} (h : ofKernel k = .ok n) :
    (∀ name shape, (name, shape, Direction.output) ∈ n.ports →
        (n.producers (.top name)).length = 1) ∧
      (∀ index c, n.component index = .ok c → ∀ name shape, (name, shape) ∈ c.inputs →
        (n.producers (.port index name)).length = 1) ∧
      ∀ name shape, (name, shape) ∈ n.wires → ∃ stream, name = wireName stream ∧
        (n.producers (.top name)).length = (if k.body.Doubles stream then 2 else 1) ∧
        (shape.isStream = true → ∀ s ∈ n.producers (.top name),
          n.IsQueue stream s ∨ n.IsOtherStream stream s) := by
  rcases ofKernel_ok h with ⟨bus, slave, c, hbus, hkernel, _, rfl, hvalid⟩
  rcases tidy_of_addBus hbus with ⟨hstart, hslave⟩
  have htidy : c.netlist.Tidy (· ∈ k.body.aliases) (· ∈ k.body.writes) [] :=
    (Construction.orderly_kernel k _ () c ⟨hstart, hslave, by simp⟩ hkernel).tidy
  rcases Construction.delivered_of_kernel rfl hkernel with ⟨hjoined, hqueued⟩
  refine ⟨fun name shape hport => htidy.output_producers hport,
    fun index d hd name shape hinput => htidy.input_producers hvalid hd hinput,
    fun name shape hwire => ?_⟩
  rcases htidy.wire_producers hvalid hwire with ⟨stream, rfl, hone, htwo, hdrivers⟩
  refine ⟨stream, rfl, ?_, hdrivers⟩
  by_cases hdoubles : k.body.Doubles stream
  · rw [if_pos hdoubles]
    rcases hjoined stream hdoubles.1 with ⟨other, hother⟩
    rcases hqueued stream hdoubles.2 with ⟨index, hindex⟩
    -- The wire it is joined to and its queue are different producers.
    have hdifferent : [Source.endpoint (.top other), .endpoint (.port index "out")].Nodup := by
      simp
    refine Nat.le_antisymm htwo (List.subperm_of_subset hdifferent fun s hs => ?_).length_le
    rcases List.mem_pair.mp hs with rfl | rfl
    · exact mem_producers.mpr hother
    · exact mem_producers.mpr hindex
  · rw [if_neg hdoubles]
    exact hone fun hboth => hdoubles hboth.2

/-- Copies four elements of a stream to another one. -/
def copying (loop source : String) (consumer : Option String) (target : String) : Stmt :=
  .produce target (.forLoop loop 0 4 (.realizeOver "out.stencil" (.uint 8) [1] (.block [
    .readStream source "in.stencil" consumer,
    .provideOne "out.stencil" (.stencil "in.stencil" (.uint 8) [.ofInt 0]) [.ofInt 0],
    .writeStream target "out.stencil" []])))

/-- Hands a stream on to its only consumer, which copies it. In between it does `extra`. -/
def handedOn (extra : List Stmt) : Kernel :=
  ⟨"twice", [.stream "in.stream" (.uint 8) [1] [4] false,
    .stream "src.stream" (.uint 8) [1] [4] false,
    .stream "out.stream" (.uint 8) [1] [4] true],
    .block ([.dispatchStream "src.stream" [⟨1, 1, 4⟩] [⟨"x", 0, [(0, 4)]⟩]] ++ extra ++
      [copying "b.x" "src.stream" (some "x") "out.stream"])⟩

/-- As long as it does nothing in between, all its wires have one producer. -/
theorem producers_of_ofKernel_handedOn :
    ∃ n, ofKernel (handedOn []) = .ok n ∧ (handedOn []).body.aliases = ["src_stream_to_x"] ∧
      (handedOn []).body.writes = ["out_stream"] ∧ n.wires.map Prod.fst =
        ["wire_in_stream", "wire_src_stream", "wire_out_stream", "wire_src_stream_to_x"] ∧
      ∀ name shape, (name, shape) ∈ n.wires → (n.producers (.top name)).length = 1 := by
  have haccepted : (ofKernel (handedOn [])).map (fun n => n.wires.map Prod.fst) = .ok
      ["wire_in_stream", "wire_src_stream", "wire_out_stream", "wire_src_stream_to_x"] := by
    decide +kernel
  rcases Fallible.exists_of_map haccepted with ⟨n, hn, hwires⟩
  have haliases : (handedOn []).body.aliases = ["src_stream_to_x"] := by decide +kernel
  have hwrites : (handedOn []).body.writes = ["out_stream"] := by decide +kernel
  refine ⟨n, hn, haliases, hwrites, hwires, fun name shape hwire => ?_⟩
  rcases (producers_of_ofKernel hn).2.2 name shape hwire with ⟨stream, _, hlength, _⟩
  rw [hlength, if_neg]
  rintro ⟨haliased, hwritten⟩
  rw [haliases, List.mem_singleton] at haliased
  rw [hwrites, List.mem_singleton, haliased] at hwritten
  exact absurd hwritten (by decide)

/-- The other name of a stream is written, which drives its wire a second time. -/
theorem exists_two_producers :
    ∃ n shape, ofKernel (handedOn [copying "a.x" "in.stream" none "src.stream_to_x"]) = .ok n ∧
      ("wire_src_stream_to_x", shape) ∈ n.wires ∧
      n.producers (.top "wire_src_stream_to_x") =
        [.endpoint (.top "wire_src_stream"), .endpoint (.port 6 "out")] := by
  have haccepted : (ofKernel (handedOn [copying "a.x" "in.stream" none "src.stream_to_x"])).map
      (fun n => (n.wires.map Prod.fst, n.producers (.top "wire_src_stream_to_x")))
      = .ok (["wire_in_stream", "wire_src_stream", "wire_out_stream", "wire_src_stream_to_x"],
          [.endpoint (.top "wire_src_stream"), .endpoint (.port 6 "out")]) := by
    decide +kernel
  rcases Fallible.exists_of_map haccepted with ⟨n, hn, hparts⟩
  rcases Prod.mk.inj hparts with ⟨hwires, hproducers⟩
  have hmem : "wire_src_stream_to_x" ∈ n.wires.map Prod.fst := by
    rw [hwires]
    decide
  rcases List.mem_map.mp hmem with ⟨⟨name, shape⟩, hwire, rfl⟩
  exact ⟨n, shape, hn, hwire, hproducers⟩

end Netlist

end StencilRtl
