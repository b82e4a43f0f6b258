import StencilRtl.Emit.Backend
import StencilRtl.Proofs.Answers.Datapaths
import StencilRtl.Proofs.Answers.Designs
import StencilRtl.Proofs.Answers.LineBuffers
import StencilRtl.Proofs.Netlist.KindOrder
import StencilRtl.Proofs.Sharing.Components

/-!
# Printing That Answers

A small design can be written in all forms.

A backend makes the modules of all components, connects their instances and prints what came of
it. Components are looked up by their numbers, and the numbers that a backend goes through are
those of components. Everything that is declared on the way is a signal of a small shape, and so
is every port that is printed.

The adapters of a design are adapters of streams. That is not a matter of size but of how designs
are put together, so it is asked for beside the design being small.

## Theorems

* `SlaveInterface.answers_make`: Making the slave interface.
* `Netlist.Small.answers_makeTop`: Making the top module and all others.
* `Backend.answers_run`: All backends answer.
-/

namespace StencilRtl

open Fallible Rtl

namespace LinearMachine

/-- A state machine can be built. -/
theorem answers_body (m : LinearMachine) : Answers m.body fun _ => True := by
  have hraised : Answers (Body.join (m.states.mapIdx m.raised)) fun _ => True := by
    refine Body.answers_join fun b hb => ?_
    rcases List.mem_mapIdx.mp hb with ⟨i, hi, rfl⟩
    exact Body.answers_join_map fun _ _ => trivial
  -- All other items have a fixed width.
  refine Body.answers_join ?_
  simp only [List.forall_mem_cons, List.not_mem_nil, false_implies, implies_true, and_true]
  exact ⟨Body.answers_reg.mpr (bitsNeededFor_pos _), Body.answers_reg.mpr (bitsNeededFor_pos _),
    trivial, hraised, trivial⟩

end LinearMachine

namespace SlaveInterface

variable {c : Component} {m : RegisterMap}

/-- A word counts the words of a small parameter. -/
theorem words_eq {e : RegisterEntry} (h : (Shape.stencil e.elem e.extents).Small) :
    e.words = .ok e.extents.prod := h.elems_eq

theorem answers_checkParameter (hc : c.Small) {e : RegisterEntry}
    (he : (Shape.stencil e.elem e.extents).Small) :
    Answers (checkParameter c e) fun _ => True := by
  unfold checkParameter
  split
  · trivial
  · trivial
  next shape hport =>
  have hshape : shape.Small := hc.portShape (show c.portShape e.name = .ok shape by
    rw [Component.portShape, hport])
  have hwidth := he.width_lt
  refine .bind_of_ok hshape.dataWidth_eq (.bind_of_ok (words_eq he)
    (.bind_of_ok (Word.mul_eq_ok.mpr ⟨?_, rfl⟩) ?_))
  · rw [Nat.mul_comm]
    exact Nat.lt_of_succ_lt hwidth
  · split <;> trivial

/-- The registers of small parameters have bits. -/
theorem answers_body {registers : List RegisterEntry} (dones : List String)
    (hregisters : ∀ e ∈ registers, (Shape.stencil e.elem e.extents).Small) :
    Answers (body registers dones) fun _ => True := by
  -- Only what depends on the entries can refuse. Everything else is of a fixed width.
  have hstorage : ∀ e ∈ registers, Answers (storageDeclaration e) fun _ => True := by
    intro e he
    have hsmall := hregisters e he
    have hbits : 0 < e.elem.bits := hsmall.bits_pos
    have hwords : 0 < e.extents.prod := hsmall.prod_pos
    unfold storageDeclaration
    split
    · exact .bind_of_ok (words_eq hsmall) (Body.answers_memory.mpr ⟨hbits, hwords⟩)
    · exact Body.answers_reg.mpr hbits
  have houtput : ∀ e ∈ registers, Answers (parameterOutput e) fun _ => True := by
    intro e he
    unfold parameterOutput
    split
    · exact .bind_of_ok (words_eq (hregisters e he)) trivial
    · trivial
  have hseen : Answers (Body.join (dones.map seenUpdate)) fun _ => True :=
    Body.answers_join_map fun _ _ => trivial
  have hcontrol : Answers (controlBody dones) fun _ => True := Body.answers_join (by simp [hseen])
  have hwrite : Answers (writeBody registers) fun _ => True := by
    unfold writeBody
    simp only []
    split <;> trivial
  refine Body.answers_join ?_
  simp only [List.forall_mem_cons, List.not_mem_nil, false_implies, implies_true, and_true]
  exact ⟨Body.answers_reg.mpr (by decide), Body.answers_reg.mpr (by decide),
    Body.answers_reg.mpr (by decide),
    Body.answers_join_map fun _ _ => Body.answers_reg.mpr Nat.one_pos,
    Body.answers_join_map fun _ _ => Body.answers_reg.mpr Nat.one_pos,
    Body.answers_join_map hstorage, LinearMachine.answers_body _, trivial,
    Body.answers_net.mpr Nat.one_pos, trivial, LinearMachine.answers_body _, trivial, trivial,
    trivial, hcontrol, hwrite, trivial, Body.answers_join_map houtput⟩

theorem answers_make (hc : c.Small) (hm : m.Sound)
    (hentries : ∀ e ∈ m.entries, (Shape.stencil e.elem e.extents).Small) :
    Replying Workshop.Renderable (make c m) fun _ => Workshop.Renderable := by
  have hparameters : Answers (checkParameters c m.entries) fun _ => True :=
    Answers.forM fun e he => answers_checkParameter hc (hentries e he)
  exact .lift_bind (.of_ok (P := fun _ => True) hm.validate trivial) fun _ _ _ =>
    Making.answers_unless (.lift_bind hparameters fun _ _ _ =>
      .lift_bind hc.answers_modulePorts fun _ _ hports =>
        .lift_bind (answers_body _ hentries) fun _ _ _ => Making.answers_defined hports)

end SlaveInterface

/-- An adapter of a design has a stream on the side of the accelerator. -/
theorem Component.Standard.isStream_inner {c : Component} (h : c.Standard) {side : AdapterSide}
    (hkind : c.kind = .adapter side) {inner : Shape}
    (hinner : c.portShape side.innerPort = .ok inner) : inner.isStream = true := by
  cases h with
  | inward _ =>
      rcases ComponentKind.adapter.inj hkind with rfl
      rcases Except.ok.inj hinner with rfl
      rfl
  | outward hshape =>
      rcases ComponentKind.adapter.inj hkind with rfl
      rcases Except.ok.inj hinner with rfl
      simp [Shape.isStream, hshape]
  | slave hslave => exact absurd (hkind.symm.trans hslave) (by simp)
  | stage hstage => exact absurd (hkind.symm.trans hstage) (by simp)
  | _ => exact absurd hkind (by simp)

namespace Netlist

/-- The numbers that are gone through are those of components. -/
theorem lt_of_mem_emissionOrder {n : Netlist} {index : Nat} (h : index ∈ n.emissionOrder) :
    index < n.components.length := by
  rcases List.mem_map.mp h with ⟨entry, hentry, rfl⟩
  exact List.snd_lt_of_mem_zipIdx (List.mem_mergeSort.mp hentry)

/-- The signals of small ports have bits. -/
theorem answers_signals {ports : List (String × Shape × Direction)}
    (h : ∀ p ∈ ports, p.2.1.Small) :
    Answers (do
      let signals ← ports.mapM fun (name, shape, direction) => shape.signals name direction
      return signals.flatten) fun signals => ∀ s ∈ signals, 0 < s.width :=
  (Answers.mapM_flatten fun p hp => (h p hp).answers_signals p.1 p.2.2).bind fun _ hall => hall

namespace Small

variable {n : Netlist} (h : n.Small)

include h

/-- The module of a component can be made. -/
theorem answers_makeComponent (hstandard : ∀ c ∈ n.components, c.Standard) {index : Nat}
    (hindex : index < n.components.length) :
    Replying Workshop.Renderable (n.makeComponent index) fun _ => Workshop.Renderable := by
  refine .lift_bind (h.answers_component hindex) fun c hc hfine => ?_
  have hkind := hfine.kind
  -- What a kind of component needs beyond its ports is in `hkind`, one case for each maker.
  split
  · exact SlaveInterface.answers_make hfine.ports h.registers h.entries
  · next side hside =>
    refine Adapter.answers_make hfine.ports fun inner hinner => ?_
    exact (hstandard c (List.mem_of_getElem? (component_ok.mp hc))).isStream_inner hside hinner
  · next depth hqueue =>
    rw [hqueue] at hkind
    exact Queue.answers_make hfine.ports hkind
  · next image hbuffer =>
    rw [hbuffer] at hkind
    exact LineBuffer.answers_make hfine.ports hkind
  · next plan hrouter =>
    rw [hrouter] at hkind
    exact DispatchPlan.answers_make hfine.ports hkind.signed
  · next plan hstage =>
    rw [hstage] at hkind
    exact StagePlan.Small.answers_make hkind hfine.ports

theorem answers_place (hstandard : ∀ c ∈ n.components, c.Standard) {index : Nat}
    (hindex : index < n.components.length) :
    Replying Workshop.Renderable (n.place index) fun _ => Workshop.Renderable :=
  .lift_bind (h.answers_component hindex) fun _ _ hfine =>
    (h.answers_makeComponent hstandard hindex).bind fun _ =>
      .lift_bind (answers_signals hfine.ports) fun _ _ hsignals =>
        .lift_bind (Body.answers_join_map fun s hs => Body.answers_wire.mpr (hsignals s hs))
          fun _ _ _ => .pure fun _ h => h

theorem answers_wireDeclarations : Answers n.wireDeclarations fun _ => True :=
  Body.answers_join_map fun w hw => ((h.wires w hw).answers_signals _ _).bind fun _ hsignals =>
    Body.answers_join_map fun s hs => Body.answers_wire.mpr (hsignals s hs)

theorem answers_endpointSignals {e : Endpoint} (he : e.Within n.components.length) :
    Answers (n.endpointSignals e) fun _ => True :=
  (h.answers_endpoint he).bind fun _ hshape => (h.answers_signalBase he).bind fun _ _ =>
    (hshape.answers_signals _ _).mono fun _ _ => trivial

theorem answers_connectionAssignments {c : Connection} (hc : c ∈ n.connections) :
    Answers (n.connectionAssignments c) fun _ => True := by
  refine (h.answers_endpointSignals (h.targets c hc)).bind fun _ _ => ?_
  split
  · trivial
  · next source hsource =>
    exact (h.answers_endpointSignals (h.sources c hc source hsource)).bind fun _ _ => trivial

theorem answers_consumedBases : Answers n.consumedBases fun _ => True := by
  refine (Answers.mapM (R := fun _ => True) fun c hc => ?_).bind fun _ _ => trivial
  split
  · trivial
  · next source hsource =>
    exact (h.answers_signalBase (h.sources c hc source hsource)).bind fun _ _ => trivial

theorem answers_resolve : Answers n.resolve fun _ => True := by
  have hidle : Answers n.unconsumed fun idle => ∀ w ∈ idle, w ∈ n.wires :=
    h.answers_consumedBases.bind fun _ _ _ hw => List.mem_of_mem_filter hw
  have htied : ∀ w ∈ n.wires, Answers (tiedLow w) fun _ => True := fun w hw =>
    ((h.wires w hw).answers_signals _ _).bind fun _ _ => trivial
  exact (Answers.mapM fun c hc => h.answers_connectionAssignments hc).bind fun _ _ =>
    hidle.bind fun idle hwires => (Answers.mapM fun w hw => htied w (hwires w hw)).bind fun _ _ =>
      trivial

/-- Making the top module makes all others. No module has a port without bits. -/
theorem answers_makeTop (hstandard : ∀ c ∈ n.components, c.Standard) :
    Replying Workshop.Renderable n.makeTop fun top w =>
      (∀ p ∈ top.ports, 0 < p.width) ∧ w.Renderable := by
  have hplaced : Replying Workshop.Renderable (n.emissionOrder.mapM n.place) fun _ =>
      Workshop.Renderable :=
    (Replying.mapM (A := fun _ => True) fun index hindex =>
      (h.answers_place hstandard (lt_of_mem_emissionOrder hindex)).weaken (fun _ h => h)
        fun _ _ h => ⟨trivial, h⟩).weaken (fun _ h => h) fun _ _ h => h.2
  -- The rest only puts together what has been computed.
  have hassignments : ∀ sinks resolved, Answers (assignments sinks resolved) fun _ => True := by
    intro sinks resolved
    unfold assignments
    split <;> trivial
  have hcommon : ∀ p ∈ Port.common, 0 < p.width := by decide
  exact .lift_bind h.answers_validate fun _ _ _ => .lift_bind (answers_signals h.ports)
    fun signals _ hsignals => .lift_bind h.answers_wireDeclarations fun _ _ _ =>
      hplaced.bind fun placed => .lift_bind h.answers_resolve fun _ _ _ =>
        .bind (Q := fun _ => Workshop.Renderable) (.change fun _ hw => hw) fun _ =>
          .lift_bind (hassignments _ _) fun _ _ _ => .pure fun _ hw =>
            ⟨List.forall_mem_append.mpr ⟨hcommon, List.forall_mem_map.mpr hsignals⟩, hw⟩

/-- So the text of all modules can be printed. -/
theorem answers_sourceText (hstandard : ∀ c ∈ n.components, c.Standard) :
    Replying Workshop.Renderable n.sourceText fun _ _ => True := by
  have hrender : ∀ m : Module, (∀ p ∈ m.ports, 0 < p.width) → Answers m.render fun _ => True := by
    intro m hports
    unfold Module.render
    split
    · next hempty =>
      rcases List.any_eq_true.mp hempty with ⟨p, hp, hzero⟩
      exact absurd (of_decide_eq_true hzero) (Nat.ne_of_gt (hports p hp))
    · trivial
  refine (h.answers_makeTop hstandard).bind_and fun top htop => .get_bind fun w hw => ?_
  have hmodules : ∀ d ∈ w.library.definitions, Answers d.text fun _ => True := fun d hd =>
    (hrender _ (hw d hd)).bind fun _ _ => trivial
  have htext : Answers (n.topText top) fun _ => True := (hrender _ htop).bind fun _ _ => trivial
  refine .bind (.mapM fun d hd => .lift (hmodules d hd)) fun _ => .lift_bind htext fun _ _ _ => ?_
  exact .pure fun _ _ => trivial

theorem answers_moduleUsesText (hstandard : ∀ c ∈ n.components, c.Standard) :
    Replying Workshop.Renderable n.moduleUsesText fun _ _ => True := by
  have huses : Replying Workshop.Renderable n.moduleUses fun _ => Workshop.Renderable :=
    .foldlM (fun entry hentry _ => (h.answers_makeComponent hstandard
      (List.snd_lt_of_mem_zipIdx hentry)).bind fun _ => .pure fun _ h => h) []
  exact huses.bind fun _ => .pure fun _ _ => trivial

theorem answers_registerHeader : Answers n.registerHeader fun _ => True := by
  have hlines : ∀ e ∈ n.registers.entries, Answers (e.headerLines (macroName n.name)) fun _ =>
      True := fun e he => .bind_of_ok (SlaveInterface.words_eq (h.entries e he)) trivial
  exact (Answers.mapM hlines).bind fun _ _ => trivial

end Small

end Netlist

/-- All backends answer for a small design whose components have the ports of their kinds. -/
theorem Backend.answers_run {n : Netlist} (h : n.Small)
    (hstandard : ∀ c ∈ n.components, c.Standard) (b : Backend) :
    Answers (b.run n).1 fun _ => True := by
  have hcheck : Answers (b.check n) fun _ => True := by
    cases b with
    | sourceText => exact h.answers_validate
    | moduleUses => exact h.answers_validate
    | registerHeader => exact .of_ok h.registers.validate trivial
    | nothing => trivial
  have hemit : Replying Workshop.Renderable (b.emit n) fun _ _ => True := by
    cases b with
    | sourceText => exact h.answers_sourceText hstandard
    | moduleUses => exact h.answers_moduleUsesText hstandard
    | registerHeader =>
        exact (Replying.lift h.answers_registerHeader).weaken (fun _ h => h) fun _ _ _ => trivial
    | nothing => exact .pure fun _ _ => trivial
  exact Replying.lift_bind hcheck (fun _ _ _ => hemit) .empty (List.forall_mem_nil _)

end StencilRtl
