import StencilRtl.Proofs.Adapter
import StencilRtl.Proofs.Answers.Nests
import StencilRtl.Proofs.Dispatch.Router
import StencilRtl.Proofs.LoopControl.Controller

/-!
# Blocks That Answer

Modules of the simpler blocks can be made for small shapes.

Making a module is asking for its name and then, unless it is there, computing its ports, its
body and perhaps a comment. The name may stand for something else, which is an error. A design is
printed in the end, and a module with a port without bits cannot be, so what is kept from module
to module is that no such port gets into the library.

Where a block keeps a number it has a register for it, and the widths of registers are never
zero. What remains is to see that the widths themselves can be computed.

## Main definitions

* `Workshop.Renderable`: No module in the library has a port without bits.

## Theorems

* `Making.answers_define`: Asking for a name and defining a module.
* `Queue.answers_make`, `Adapter.answers_make`, `DispatchPlan.answers_make`,
  `LoopControl.answers_make`: Making the modules of blocks.
-/

namespace StencilRtl

open Fallible Rtl

/-- No module in the library has a port without bits. -/
def Workshop.Renderable (w : Workshop) : Prop :=
  ∀ d ∈ w.library.definitions, ∀ p ∈ d.content.ports, 0 < p.width

/-- The signals of small shapes have bits, and so have the ports made of them. -/
theorem Rtl.Port.answers_ofShape {name : String} {shape : Shape} {direction : Direction}
    (h : shape.Small) :
    Answers (Port.ofShape name shape direction) fun ports => ∀ p ∈ ports, 0 < p.width :=
  (h.answers_signals name direction).bind fun _ hsignals => List.forall_mem_map.mpr hsignals

namespace Making

open Workshop

theorem answers_needs {P : Workshop → Prop} (name : String) (parameters : Parameters) :
    Replying P (needs name parameters) fun _ => P := by
  have hneeds : ∀ l : Library, Answers (l.needs name parameters) fun _ => True := by
    intro l
    unfold Library.needs
    split
    · trivial
    · split <;> trivial
  refine .get_bind fun w hw => ?_
  exact (Replying.lift (hneeds _)).weaken (fun _ h => h) fun _ _ h => h.2 ▸ hw

theorem answers_define {name : String} {parameters : Parameters} {header : List String}
    {ports : List Port} {body : List Item} (hports : ∀ p ∈ ports, 0 < p.width) :
    Replying Renderable (define name parameters header ports body) fun _ => Renderable := by
  intro w hw
  have hneeds := answers_needs (P := Renderable) name parameters w hw
  rw [run_needs] at hneeds
  rw [run_define]
  cases h : w.library.needs name parameters with
  | error failure =>
      rw [h] at hneeds
      cases failure with
      | fault _ => exact hneeds
      | error _ => trivial
  | ok needed =>
      cases needed with
      | false => exact hw
      | true => exact List.forall_mem_append.mpr ⟨hw, List.forall_mem_singleton.mpr hports⟩

/-- A name is asked for, and unless it is there a module is made for it. -/
theorem answers_unless {name : String} {parameters : Parameters} {make : Making String}
    (hmake : Replying Renderable make fun _ => Renderable) :
    Replying Renderable (needs name parameters >>= fun needed =>
      if needed = true then make else pure name) fun _ => Renderable := by
  refine (answers_needs _ _).bind fun needed => ?_
  split
  · exact hmake
  · exact .pure fun _ h => h

/-- A module is defined, and its name is told. -/
theorem answers_defined {name : String} {parameters : Parameters} {header : List String}
    {ports : List Port} {body : List Item} (hports : ∀ p ∈ ports, 0 < p.width) :
    Replying Renderable (do
      define name parameters header ports body
      return name) fun _ => Renderable :=
  (answers_define hports).bind fun _ => .pure fun _ h => h

end Making

namespace Queue

/-- The registers of a queue have bits. -/
theorem answers_body {g : FifoGeometry} {width : Nat} (hwidth : 0 < width) (hslots : 0 < g.slots)
    (hpointer : 0 < g.pointerWidth) (hlevel : 0 < g.levelWidth) :
    Answers (body g width) fun _ => True := by
  refine Body.answers_join ?_
  simp [pointer, hwidth, hslots, hpointer, hlevel]

theorem answers_make {c : Component} {depth : Nat} (hc : c.Small)
    (hdepth : depth + 1 < Word.limit) :
    Replying Workshop.Renderable (make c depth) fun _ => Workshop.Renderable := by
  have hgeometry : Answers (FifoGeometry.ofDepth depth) fun g =>
      0 < g.slots ∧ 0 < g.pointerWidth ∧ 0 < g.levelWidth := by
    unfold FifoGeometry.ofDepth
    split
    · trivial
    refine .bind_of_ok (a := depth + 1) (Word.add_eq_ok.mpr ⟨hdepth, rfl⟩) ?_
    refine .bind_of_ok (bitsToHold_of_lt hdepth) ?_
    exact ⟨Nat.succ_pos _, bitsNeededFor_pos _, bitsNeededFor_pos _⟩
  refine .lift_bind hc.answers_portShape fun shape _ hshape =>
    .lift_bind hgeometry fun g _ hg => Making.answers_unless ?_
  exact .lift_bind hc.answers_modulePorts fun ports _ hports =>
    .lift_bind hshape.answers_dataWidth fun width _ hwidth =>
      .lift_bind (answers_body hwidth hg.1 hg.2.1 hg.2.2) fun _ _ _ => Making.answers_defined hports

end Queue

namespace Adapter

theorem answers_make {c : Component} {side : AdapterSide} (hc : c.Small)
    (hstream : ∀ inner, c.portShape side.innerPort = .ok inner → inner.isStream = true) :
    Replying Workshop.Renderable (make c side) fun _ => Workshop.Renderable := by
  refine .lift_bind hc.answers_portShape fun inner hinner hshape => Making.answers_unless ?_
  have hframed := hshape.framed (hstream inner hinner)
  rcases hframed.scan_returns with ⟨scan, hscan⟩
  have hlimit : Word.limit = 2 ^ 64 := rfl
  have hextents : ∀ extent ∈ inner.extents, extent + 1 < Word.limit := fun extent hextent => by
    have hlt := hshape.extent_lt extent hextent
    omega
  rcases hframed.counters_returns hscan hextents with ⟨made, hmade, hpos⟩
  exact .lift_bind hc.answers_modulePorts fun ports _ hports =>
    .lift_bind hshape.answers_dataWidth fun width _ hwidth =>
      .lift_bind (.of_ok (P := (· = scan)) hscan rfl) fun _ _ hsame =>
        .lift_bind (.of_ok (P := (· = made)) (hsame ▸ hmade) rfl) fun _ _ hsame =>
          .lift_bind (.of_exists (hsame ▸ body_returns hpos hwidth)) fun _ _ _ =>
            Making.answers_defined hports

end Adapter

namespace LoopControl

/-- The ports of a controller have bits, those that show its variables as well. -/
theorem answers_ports {c : LoopControl} (hc : ∀ v ∈ c.vars, v.Runs) :
    Answers c.ports fun ports => ∀ p ∈ ports, 0 < p.width := by
  have hshown : ∀ v ∈ c.vars, Answers v.output fun p => 0 < p.width := fun v hv =>
    .bind_of_ok (hc v hv).width_eq (bitsNeededFor_pos _)
  refine (Answers.mapM hshown).bind fun shown hshown => ?_
  have hnames : ∀ p ∈ Port.common ++ inputNames.map (fun name => Port.input name 1)
      ++ outputNames.map (fun name => Port.output name 1), 0 < p.width := by decide
  exact List.forall_mem_append.mpr ⟨hnames, hshown⟩

/-- A controller whose variables run can be made. -/
theorem answers_make {c : LoopControl} (hc : ∀ v ∈ c.vars, v.Runs)
    (hlatency : c.latency + 1 < Word.limit) :
    Replying Workshop.Renderable c.make fun _ => Workshop.Renderable := by
  refine .get_bind fun w hw => ?_
  refine (Making.answers_unless ?_).weaken (fun _ h => h ▸ hw) fun _ _ h => h
  exact .lift_bind (answers_ports hc) fun ports _ hports =>
    .lift_bind (.of_exists (body_returns hc hlatency)) fun _ _ _ =>
      .lift_bind (.of_exists (header_returns hc)) fun _ _ _ => Making.answers_defined hports

end LoopControl

namespace DispatchPlan

variable {p : DispatchPlan}

/-- The counters of a checked router can be made. -/
theorem answers_counters (h : p.FitsSigned) (hchecked : p.Checked) :
    Answers p.counters fun counters => ∀ c ∈ counters, 0 < c.width := by
  have hlimit : Word.limit = 2 ^ 64 := rfl
  have hlast : ∃ lastFrom, p.lastFrom = .ok lastFrom := by
    -- Steps and dimensions are the same list read twice, so every pair is one dimension.
    have hpairs : p.steps.zip (p.dimensions.map fun d => d.2.2 - d.1)
        = p.dimensions.map fun d => (d.2.1, d.2.2 - d.1) := by
      rw [← map_steps hchecked, List.zip_map']
    have hmapped : p.lastFrom = (p.steps.zip (p.dimensions.map fun d => d.2.2 - d.1)).mapM
        fun d => returnsFrom d.1 d.2 := by
      rw [lastFrom, maxes_ok hchecked]
      rfl
    rw [hmapped, hpairs]
    refine Fallible.mapM_returns fun d hd => ?_
    rcases List.mem_map.mp hd with ⟨dim, hdim, rfl⟩
    have hstore := h.stores dim hdim
    exact ⟨_, Fallible.bind_ok.mpr ⟨_, Word.add_eq_ok.mpr ⟨by omega, rfl⟩, rfl⟩⟩
  rcases hlast with ⟨lastFrom, hlast⟩
  refine .bind_of_ok hlast ((Answers.of_exists (ScanCounter.ofDimensions_returns
    fun dim hdim => ?_)).mono_ok fun counters hmade _ c hc => ?_)
  · have hstep := (List.of_mem_zip (List.of_mem_zip hdim).2).1
    rw [← map_steps hchecked] at hstep
    rcases List.mem_map.mp hstep with ⟨d, hd, heq⟩
    have hsigned : d.2.1 < 2 ^ 63 := h.steps d hd
    rw [← heq]
    omega
  -- A counter is as wide as the extent it counts asks for, which is at least one bit.
  · rcases exists_of_forall₂ (ScanCounter.counts_of_ofDimensions hmade).2 hc with
      ⟨dim, hdim, hwidth, _⟩
    rcases List.mem_map.mp (List.of_mem_zip hdim).1 with ⟨store, _, hbits⟩
    rw [hwidth, ← hbits]
    exact bitsNeededFor_pos store

/-- The ends of a box are words, and a box that holds a window ends behind it. -/
theorem answers_boxCondition (h : p.FitsSigned) (hchecked : p.Checked) {box : DispatchBox}
    (hbox : box ∈ p.consumers) (counters : List ScanCounter) :
    Answers (p.boxCondition counters box) fun _ => True := by
  unfold boxCondition
  split
  · next hfits =>
    have hbounds : ∀ x ∈ counters.zip (p.sizes.zip (box.offsets.zip box.extents)),
        Answers (boxBounds x) fun _ => True := by
      intro x hx
      have hside := (List.of_mem_zip hx).2
      rw [sizes_zip_sides hchecked hbox] at hside
      rcases List.mem_map.mp hside with ⟨side, hside, hsame⟩
      have hroom : side.1.1 ≤ side.2.2 := (fits_iff hchecked hbox).mp hfits side hside
      -- The near end is subtracted only where the box holds a window, and there nothing is lost.
      have hends : side.2 ∈ box.offsets.zip box.extents := by
        rw [← map_snd_sides hchecked hbox]
        exact List.mem_map_of_mem hside
      rcases x with ⟨c, dim⟩
      rcases (hsame : (side.1.1, side.2) = dim) with rfl
      exact .bind_of_ok (Word.add_eq_ok.mpr ⟨h.endsInWords hbox _ hends, rfl⟩)
        (.bind_of_ok (Word.sub_eq_ok.mpr ⟨Nat.le_add_left_of_le hroom, rfl⟩) trivial)
    exact (Answers.mapM hbounds).bind fun _ _ => trivial
  · trivial

theorem answers_body (h : p.FitsSigned) (hchecked : p.Checked) {counters : List ScanCounter}
    (hcounters : ∀ c ∈ counters, 0 < c.width) : Answers (p.body counters) fun _ => True := by
  have hdeclared : Answers (Body.join (counters.map ScanCounter.declaration)) fun _ => True :=
    Body.answers_join_map fun c hc => Body.answers_reg.mpr (hcounters c hc)
  have hboxes : Answers (Body.join (p.consumers.mapIdx fun c box => do
      Body.net (inBoxSignal c) 1 (← p.boxCondition counters box))) fun _ => True := by
    refine Body.answers_join fun b hb => ?_
    rcases List.mem_mapIdx.mp hb with ⟨c, hc, rfl⟩
    exact (answers_boxCondition h hchecked (List.getElem_mem hc) counters).bind fun _ _ =>
      Body.answers_net.mpr Nat.one_pos
  have houtputs : Answers (Body.join (p.consumerNumbers.map consumerOutputs)) fun _ => True :=
    Body.answers_join_map fun c _ => trivial
  have hmoves : Answers (Body.join ((ScanCounter.moves [.ref "accept"] counters).map
      counterUpdate)) fun _ => True := Body.answers_join_map fun _ _ => trivial
  refine Body.answers_join ?_
  simp only [List.forall_mem_cons, List.not_mem_nil, false_implies, implies_true, and_true]
  exact ⟨hdeclared, hboxes, trivial, trivial, houtputs, hmoves, trivial⟩

theorem answers_checkDimensions (d : Nat) (dims : List (Nat × Nat × Nat)) :
    Answers (checkDimensions d dims) fun _ => True := by
  induction dims generalizing d with
  | nil => trivial
  | cons dim rest ih =>
      unfold checkDimensions
      split
      · trivial
      · exact ih (d + 1)

theorem answers_checkBoxes (rank : Nat) (boxes : List DispatchBox) :
    Answers (checkBoxes rank boxes) fun _ => True := by
  induction boxes with
  | nil => trivial
  | cons box rest ih =>
      unfold checkBoxes
      split
      · trivial
      · exact ih

/-- The check of a router only ever refuses it. -/
theorem answers_check (p : DispatchPlan) : Answers p.check fun _ => True := by
  unfold check
  simp only []
  split
  · trivial
  · exact (answers_checkDimensions _ _).bind fun _ _ => answers_checkBoxes _ _

/-- The numbers of a router that passes its check are signed words, so it can be made. -/
theorem answers_make {c : Component} (hc : c.Small) (h : p.FitsSigned) :
    Replying Workshop.Renderable (p.make c) fun _ => Workshop.Renderable := by
  have hnumber : ∀ parameters, Replying Workshop.Renderable (Making.numberOf parameters) fun _ =>
      Workshop.Renderable := fun _ => .get_bind fun w hw => .pure fun _ hsame => hsame ▸ hw
  refine .lift_bind hc.answers_portShape fun shape _ hshape =>
    .lift_bind p.answers_check fun _ hok _ => (hnumber _).bind fun number =>
      Making.answers_unless ?_
  -- Past the check, what the counters and the body ask of the boxes and the steps holds.
  have hchecked := checked_of_check hok
  exact .lift_bind hc.answers_modulePorts fun ports _ hports =>
    .lift_bind (answers_counters h hchecked) fun counters _ hcounters =>
      .lift_bind (answers_body h hchecked hcounters) fun body _ _ =>
        .bind (Q := fun _ => Workshop.Renderable) (.change fun _ hw => hw) fun _ =>
          Making.answers_defined hports

end DispatchPlan

end StencilRtl
