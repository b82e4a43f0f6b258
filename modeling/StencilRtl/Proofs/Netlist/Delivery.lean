import StencilRtl.Proofs.LoopNest.Translation
import StencilRtl.Proofs.Netlist.Orderly

/-!
# Delivered Streams

What a kernel asks for is in its design.

A call that makes a stream another name of one has joined two wires when it has been read,
and a line buffer or a router has left queues behind. A write is only remembered by its
nest, and its queue comes with the stage, when the nest ends. Connections are never taken
back, and neither is a write, since a nest has one.

So for every call a body evaluates, the wires of its streams are driven as it asks for, at
the latest when no nest is left.

## Main definitions

* `Stmt.aliases`, `Stmt.writes`: Streams that are other names of streams, and streams that
  are written.
* `Stmt.Doubles`: Streams that are both.
* `Netlist.Joined`, `Netlist.Queued`: The wire of a stream is driven by a wire, or a queue.
* `Construction.Writing`: The wire of a stream is or will be driven by a queue.

## Theorems

* `lasts_followed`: What has been read is not taken back.
* `delivered_of_kernel`: The streams of a kernel are delivered.
-/

namespace StencilRtl

/-- The streams on which the consumers find their parts. -/
def DispatchCall.parts (c : DispatchCall) : List String :=
  c.plan.consumers.map fun box => consumerStream c.stream box.name

namespace Stmt

/-- The streams a call makes other names of a stream. -/
def aliasesOf : String × List Expr → List String
  | (name, args) =>
      if name = DispatchCall.callName then
        (DispatchCall.ofArgs args).toOption.toList.flatMap fun call =>
          if call.isAlias then call.parts else []
      else []

/-- The streams a call writes. -/
def writesOf : String × List Expr → List String
  | (name, args) =>
      if name = WriteStream.callName then
        (WriteStream.ofArgs args).toOption.toList.map WriteStream.stream
      else if name = LineBufferCall.callName then
        (LineBufferCall.ofArgs args).toOption.toList.map LineBufferCall.output
      else if name = DispatchCall.callName then
        (DispatchCall.ofArgs args).toOption.toList.flatMap fun call =>
          if call.isAlias then [] else call.parts
      else []

/-- The streams a statement makes other names of streams. -/
def aliases (s : Stmt) : List String := s.operations.flatMap aliasesOf

/-- The streams a statement writes. -/
def writes (s : Stmt) : List String := s.operations.flatMap writesOf

/-- A statement makes a stream another name of one and writes it. -/
def Doubles (s : Stmt) (stream : String) : Prop := stream ∈ s.aliases ∧ stream ∈ s.writes

instance (s : Stmt) (stream : String) : Decidable (s.Doubles stream) :=
  inferInstanceAs (Decidable (_ ∧ _))

end Stmt

namespace Netlist

/-- The wire of a stream is driven by another wire. -/
def Joined (n : Netlist) (stream : String) : Prop :=
  ∃ other, ⟨.top (wireName stream), .endpoint (.top other)⟩ ∈ n.connections

/-- The wire of a stream is driven by a queue. -/
def Queued (n : Netlist) (stream : String) : Prop :=
  ∃ index, ⟨.top (wireName stream), .endpoint (.port index "out")⟩ ∈ n.connections

end Netlist

namespace Construction

open Ensures

/-- The wire of a stream is driven by a queue, or will be when the nest ends. -/
def Writing (c : Construction) (stream : String) : Prop :=
  c.netlist.Queued stream ∨
    ∃ nest ∈ c.nest, ∃ output ∈ nest.output, output.port.port = stream

/-- What a call asks for has been done, or will be. -/
def Delivers (c : Construction) (op : String × List Expr) : Prop :=
  (∀ s ∈ Stmt.aliasesOf op, c.netlist.Joined s) ∧ ∀ s ∈ Stmt.writesOf op, c.Writing s

/-- Connections and writes are not taken back. -/
structure Lasts (c c' : Construction) : Prop where
  connections : c.netlist.connections ⊆ c'.netlist.connections
  writing : ∀ stream, c.Writing stream → c'.Writing stream

/-- The primitive steps take no connection back. -/
theorem connections_respected :
    Respected fun c c' => c.netlist.connections ⊆ c'.netlist.connections where
  refl _ := List.Subset.refl _
  trans := List.Subset.trans
  outputs _ _ := List.Subset.refl _
  connect _ _ _ := List.subset_append_left ..
  wire h := by
    rcases Netlist.addWire_ok h with ⟨_, rfl⟩
    exact List.Subset.refl _
  port h := by
    rcases Netlist.addPort_ok h with rfl
    exact List.Subset.refl _
  component _ _ h := by
    rcases Netlist.addComponent_ok h with ⟨_, rfl⟩
    exact List.Subset.refl _
  input _ _ := List.Subset.refl _
  output _ _ := List.Subset.refl _
  register _ := List.Subset.refl _

namespace Lasts

variable {c c' d : Construction}

theorem trans (h : Lasts c d) (h' : Lasts d c') : Lasts c c' :=
  ⟨List.Subset.trans h.connections h'.connections, fun s hs => h'.writing s (h.writing s hs)⟩

/-- The nest may change as long as it keeps its output. -/
theorem of_nest (hconnections : c.netlist.connections ⊆ c'.netlist.connections)
    (hnest : ∀ nest ∈ c.nest, ∀ output ∈ nest.output, ∃ nest' ∈ c'.nest, output ∈ nest'.output) :
    Lasts c c' := by
  refine ⟨hconnections, fun stream hwriting => ?_⟩
  rcases hwriting with ⟨index, hmem⟩ | ⟨nest, hsome, output, houtput, hstream⟩
  · exact .inl ⟨index, hconnections hmem⟩
  · rcases hnest nest hsome output houtput with ⟨nest', hsome', houtput'⟩
    exact .inr ⟨nest', hsome', output, houtput', hstream⟩

/-- What leaves the nest alone keeps it. -/
theorem of_same (hconnections : c.netlist.connections ⊆ c'.netlist.connections)
    (hnest : c'.nest = c.nest) : Lasts c c' :=
  of_nest hconnections fun nest hsome _ houtput => ⟨nest, hnest ▸ hsome, houtput⟩

theorem delivers (h : Lasts c c') {op : String × List Expr} (hdone : c.Delivers op) :
    c'.Delivers op :=
  ⟨fun s hs => (hdone.1 s hs).imp fun _ hmem => h.connections hmem,
    fun s hs => h.writing s (hdone.2 s hs)⟩

end Lasts

/-- A stream that is driven through a queue is queued. -/
theorem queued_addQueued {P : Construction → Prop} {stream : String} {shape : Shape}
    {source : Endpoint} :
    Ensures P (addQueued stream shape source) fun _ c => c.netlist.Queued stream := by
  intro c u c' _ h
  rcases addQueued_inv h with ⟨n, q, m, index, _, _, _, _, _, _, rfl⟩
  exact ⟨index, List.mem_append_right _ (List.mem_singleton_self _)⟩

theorem queued_lineBuffer {P : Construction → Prop} (call : LineBufferCall) :
    Ensures P (lineBuffer call) fun _ c => c.netlist.Queued call.output := by
  refine .bind .passes fun _ => .bind .passes fun _ => ?_
  split
  · exact .fails fun _ => by simp [unsupported]
  · exact .lift_bind fun _ _ => .lift_bind fun _ _ => .bind .passes fun _ =>
      .bind .passes fun _ => queued_addQueued

/-- Every consumer of a router finds its part behind a queue. -/
theorem queued_addRouter {P : Construction → Prop} (call : DispatchCall) (shape : Shape) :
    Ensures P (addRouter call shape) fun _ c => ∀ s ∈ call.parts, c.netlist.Queued s := by
  refine .lift_bind fun _ _ => .bind .passes fun _ => .bind .passes fun index =>
    .bind .passes fun _ => ?_
  intro c u c' _ h s hs
  rcases List.mem_map.mp hs with ⟨box, hbox, rfl⟩
  rcases List.getElem?_of_mem hbox with ⟨i, hi⟩
  have hmem : (box, i) ∈ call.plan.consumers.zipIdx := List.mem_zipIdx_iff_getElem?.mpr hi
  rcases connections_respected.forM_mem (fun _ => connections_respected.addQueued) h hmem
    with ⟨d, d', v, _, hadd, hbehind⟩
  have hqueued : d'.netlist.Queued (consumerStream call.stream box.name) :=
    queued_addQueued (P := fun _ => True) d v d' trivial hadd
  exact hqueued.imp fun _ hq => hbehind hq

/-- The only consumer of a stream without a router has a wire that is joined to it. -/
theorem delivers_dispatch {P : Construction → Prop} (call : DispatchCall) :
    Ensures P (dispatch call) fun _ c =>
      (call.isAlias = true → ∀ s ∈ call.parts, c.netlist.Joined s) ∧
        (call.isAlias = false → ∀ s ∈ call.parts, c.netlist.Queued s) := by
  refine .bind .passes fun shape => ?_
  split
  · next only halias hconsumers =>
    refine .bind .passes fun _ => .connect fun c _ => ⟨fun _ s hs => ?_, fun hno => ?_⟩
    · rw [DispatchCall.parts, hconsumers, List.map_singleton, List.mem_singleton] at hs
      rcases hs with rfl
      exact ⟨_, List.mem_append_right _ (List.mem_singleton_self _)⟩
    · exact absurd (halias.symm.trans hno) (by simp)
  · next hno =>
    refine (queued_addRouter call shape).weaken (fun _ h => h) fun _ _ h => ⟨fun halias => ?_,
      fun _ => h⟩
    rcases DispatchCall.exists_of_isAlias halias with ⟨only, hone, _⟩
    exact absurd hone (hno only halias)

/-- Neither does adding a stage. -/
theorem connections_addStage (nest : LoopNest) :
    Leads (fun c c' => c.netlist.connections ⊆ c'.netlist.connections) (addStage nest) := by
  intro c u c' h
  rcases connections_respected.addStage_behind h with ⟨_, _, _, _, n, _, _, _, _, hadd, hbehind⟩
  rcases Netlist.addComponent_ok hadd with ⟨_, rfl⟩
  exact hbehind

theorem queued_lasts {stream : String} {α : Type} {m : Constructing α}
    (hm : Leads (fun c c' => c.netlist.connections ⊆ c'.netlist.connections) m) :
    Ensures (fun c => c.netlist.Queued stream) m fun _ c => c.netlist.Queued stream :=
  fun c a c' hq h => hq.imp fun _ hmem => hm c a c' h hmem

/-- The stage of a nest drives the wire of its output through a queue. -/
theorem queued_addStage {P : Construction → Prop} {nest : LoopNest} {output : NestOutput}
    (houtput : output ∈ nest.output) :
    Ensures P (addStage nest) fun _ c => c.netlist.Queued output.port.port := by
  have hC := connections_respected
  refine .bind .passes fun _ => .lift_bind fun _ _ => .lift_bind fun ⟨plan, written⟩ hfinish =>
    .lift_bind fun _ _ => .bind .passes fun _ => .bind .passes fun _ => .bind .passes fun _ => ?_
  rcases Option.some.inj ((LoopNest.finish_ok hfinish).1.symm.trans houtput) with rfl
  refine .bind queued_addQueued fun _ => queued_lasts ?_
  refine Leads.get_bind fun _ => hC.bind (Leads.change fun c => hC.outputs c _) fun _ => ?_
  split
  · exact hC.addOutputAdapter _ _
  · exact hC.pure _

/-- What is written is not taken back when a nest ends. -/
theorem lasts_endNest : Leads Lasts endNest := by
  intro c u c' h
  rcases endNest_ok h with ⟨_, rfl⟩ | ⟨nest, hnest, hstage⟩
  · exact .of_same (List.Subset.refl _) rfl
  · have hconnections := connections_addStage nest _ u c' hstage
    refine ⟨hconnections, fun stream hwriting => .inl ?_⟩
    rcases hwriting with ⟨index, hmem⟩ | ⟨before, hsome, output, houtput, rfl⟩
    · exact ⟨index, hconnections hmem⟩
    · rcases Option.some.inj (hnest.symm.trans hsome) with rfl
      exact queued_addStage (P := fun _ => True) houtput _ u c' trivial hstage

/-- Behind an operation, what it asks for is done or remembered by the nest. -/
theorem lasts_operation (name : String) (args : List Expr) :
    Leads (fun c c' => Lasts c c' ∧ c'.Delivers (name, args)) (operation name args) := by
  have hC := connections_respected
  have hU := untouched_respected
  intro c u c' h
  cases operation_ok h with
  | @read call shape before nest _ _ _ hbefore hread =>
      have hkept : Lasts c { c with nest := some nest } := by
        refine .of_nest (List.Subset.refl _) fun other hsome output houtput => ⟨nest, rfl, ?_⟩
        rcases Option.some.inj (hbefore.symm.trans hsome) with rfl
        rw [LoopNest.output_read hread]
        exact houtput
      exact ⟨hkept, fun s hs => absurd hs List.not_mem_nil, fun s hs => absurd hs List.not_mem_nil⟩
  | @write call shape before nest hcall _ _ hbefore hwrite =>
      rcases LoopNest.write_ok hwrite with ⟨hnone, hnest⟩
      -- A nest that writes has no output yet.
      have hkept : Lasts c { c with nest := some nest } := by
        refine .of_nest (List.Subset.refl _) fun other hsome output houtput => ?_
        rcases Option.some.inj (hbefore.symm.trans hsome) with rfl
        exact absurd (hnone.symm.trans houtput) (by simp)
      refine ⟨hkept, fun s hs => absurd hs List.not_mem_nil, fun s hs => .inr ?_⟩
      rw [Stmt.writesOf, if_pos rfl, hcall] at hs
      rcases List.mem_singleton.mp hs with rfl
      exact ⟨nest, rfl, _, congrArg LoopNest.output hnest, rfl⟩
  | @lineBuffer call _ hcall hrun =>
      refine ⟨.of_same (hC.lineBuffer call c () c' hrun) (hU.lineBuffer call c () c' hrun).1,
        fun s hs => absurd hs List.not_mem_nil, fun s hs => .inl ?_⟩
      rw [Stmt.writesOf, if_neg (by decide), if_pos rfl, hcall] at hs
      rcases List.mem_singleton.mp hs with rfl
      exact queued_lineBuffer (P := fun _ => True) call c () c' trivial hrun
  | @dispatch call _ hcall hrun =>
      rcases delivers_dispatch (P := fun _ => True) call c () c' trivial hrun with
        ⟨hjoined, hqueued⟩
      refine ⟨.of_same (hC.dispatch call c () c' hrun) (hU.dispatch call c () c' hrun).1,
        fun s hs => ?_, fun s hs => .inl ?_⟩
      · rw [Stmt.aliasesOf, if_pos rfl, hcall] at hs
        rcases List.mem_flatMap.mp hs with ⟨other, hother, hpart⟩
        rcases List.mem_singleton.mp hother with rfl
        cases halias : other.isAlias with
        | true => exact hjoined halias s (by simpa [halias] using hpart)
        | false => exact absurd hpart (by simp [halias])
      · rw [Stmt.writesOf, if_neg (by decide), if_neg (by decide), if_pos rfl, hcall] at hs
        rcases List.mem_flatMap.mp hs with ⟨other, hother, hpart⟩
        rcases List.mem_singleton.mp hother with rfl
        cases halias : other.isAlias with
        | true => exact absurd hpart (by simp [halias])
        | false => exact hqueued halias s (by simpa [halias] using hpart)

/-- Whatever is read lasts, and delivers what its calls ask for. -/
theorem lasts_followed :
    Followed fun ops c c' => Lasts c c' ∧ ∀ op ∈ ops, c'.Delivers op where
  refl c := ⟨.of_same (List.Subset.refl _) rfl, List.forall_mem_nil _⟩
  trans h h' := by
    refine ⟨h.1.trans h'.1, List.forall_mem_append.mpr ⟨fun op hop => ?_, h'.2⟩⟩
    exact h'.1.delivers (h.2 op hop)
  producer _ _ := ⟨.of_same (List.Subset.refl _) rfl, List.forall_mem_nil _⟩
  -- A nest begins where none was, so there is no output to be kept.
  begins hnone _ := by
    refine ⟨.of_nest (List.Subset.refl _) fun nest hsome => ?_, List.forall_mem_nil _⟩
    exact absurd (hnone.symm.trans hsome) (by simp)
  continues hbefore hsame := by
    refine ⟨.of_nest (List.Subset.refl _) fun nest hsome output houtput => ?_,
      List.forall_mem_nil _⟩
    rcases Option.some.inj (hbefore.symm.trans hsome) with rfl
    exact ⟨_, rfl, hsame.output ▸ houtput⟩
  ends c u c' h := ⟨lasts_endNest c u c' h, List.forall_mem_nil _⟩
  realized _ c u c' h :=
    ⟨.of_same (connections_respected.addWire c u c' h) (untouched_respected.addWire c u c' h).1,
      List.forall_mem_nil _⟩
  operation name args c u c' h := by
    rcases lasts_operation name args c u c' h with ⟨hlasts, hdelivers⟩
    refine ⟨hlasts, fun op hop => ?_⟩
    rcases List.mem_singleton.mp hop with rfl
    exact hdelivers

/-- What the body of a kernel makes another name of a stream is joined to a wire, and what it
    writes is queued. -/
theorem delivered_of_kernel {k : Kernel} {c c' : Construction} {u : Unit} (hnest : c.nest = none)
    (h : kernel k c = .ok (u, c')) :
    (∀ s ∈ k.body.aliases, c'.netlist.Joined s) ∧ ∀ s ∈ k.body.writes, c'.netlist.Queued s := by
  rcases bind_ok.mp h with ⟨_, d, hargs, hbody⟩
  have hd : d.nest = none :=
    (untouched_respected.forM untouched_respected.addArgument c _ d hargs).1.trans hnest
  -- When the body has been read no nest is left, so nothing is still to be written.
  have hend : c'.nest = none := ((statement_reads k.body d u c' hbody).outside hd).1
  rcases lasts_followed.statement k.body d u c' hbody with ⟨_, hdelivers⟩
  refine ⟨fun s hs => ?_, fun s hs => ?_⟩
  · rcases List.mem_flatMap.mp hs with ⟨op, hop, hs⟩
    exact (hdelivers op hop).1 s hs
  · rcases List.mem_flatMap.mp hs with ⟨op, hop, hs⟩
    rcases (hdelivers op hop).2 s hs with hqueued | ⟨nest, hsome, _⟩
    · exact hqueued
    · exact absurd (hend.symm.trans hsome) (by simp)

end Construction

end StencilRtl
