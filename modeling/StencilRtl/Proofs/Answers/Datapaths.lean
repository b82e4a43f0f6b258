import StencilRtl.Hardware.Datapath
import StencilRtl.Proofs.Answers.Blocks
import StencilRtl.Proofs.Datapath.Lowering
import StencilRtl.Proofs.Registers.Layout

/-!
# Datapaths That Answer

The modules of stages can be made.

Lowering an expression computes with words only where an element lies at constant coordinates.
Those have been checked by then, so the element is inside its stencil, and its bits are among the
bits of the stencil. Beside that a conversion leaves a wire behind, and a wire has to have bits.
What is kept from expression to expression is that all wires that are still to be declared do.

The loops of a small plan run once the plan has passed its check, and the controller, the output
assembly and the datapath follow from that.

## Main definitions

* `Scope.Small`: The stencils of a scope are small.
* `LoweringState.Wide`: The wires that are still to be declared have bits.

## Theorems

* `Scope.answers_lower`: Lowering a moderate expression.
* `StagePlan.Small.answers_lowerActions`: The logic of moderate actions.
* `StagePlan.Small.answers_make`: Making the modules of a stage.
-/

namespace StencilRtl

open Fallible Rtl

/-- The wires that are still to be declared have bits. -/
def LoweringState.Wide (s : LoweringState) : Prop := ∀ c ∈ s.pending, 0 < c.width

/-- The stencils of a scope are small. -/
def Scope.Small (s : Scope) : Prop := ∀ entry ∈ s.stencils, entry.2.Small

namespace Lowering

open LoweringState

/-- The scope of a name has nothing to do with the wires. -/
theorem answers_binding {α : Type} {name : String} {value : Rtl.Expr} {body : Lowering α}
    (h : Replying Wide body fun _ => Wide) :
    Replying Wide (binding name value body) fun _ => Wide :=
  fun s hs => h (s.bind name value) hs

theorem answers_castWire {width : Nat} {value : Rtl.Expr} (hwidth : 0 < width) :
    Replying Wide (castWire width value) fun _ => Wide := fun _ hs =>
  List.forall_mem_append.mpr ⟨hs, List.forall_mem_singleton.mpr hwidth⟩

/-- Once the wires are declared none are left. -/
theorem answers_declareCasts : Replying Wide declareCasts fun _ => Wide := by
  intro s hs
  have hcasts : Answers (Body.join (s.pending.map fun c => Body.net c.name c.width c.value))
      fun _ => True := Body.answers_join_map fun c hc => Body.answers_net.mpr (hs c hc)
  exact hcasts.mono fun _ _ => List.forall_mem_nil _

end Lowering

theorem length_of_mapM {α β : Type} {f : α → Option β} {xs : List α} {ys : List β}
    (h : xs.mapM f = some ys) : ys.length = xs.length := by
  induction xs generalizing ys with
  | nil =>
      rw [← Option.some.inj h]
      rfl
  | cons x rest ih =>
      rw [List.mapM_cons] at h
      rcases Option.bind_eq_some_iff.mp h with ⟨y, _, h⟩
      rcases Option.bind_eq_some_iff.mp h with ⟨more, hmore, h⟩
      rw [← Option.some.inj h, List.length_cons, List.length_cons, ih hmore]

/-- Constant coordinates are refused or lie in the box. -/
theorem answers_checkedCoordinates {name : String} {index : List Int} {extents : List Nat}
    (hrank : index.length = extents.length) (d : Nat) :
    Answers (checkedCoordinates name d (index.zip extents)) (Inside extents) := by
  induction index generalizing extents d with
  | nil =>
      rw [List.eq_nil_of_length_eq_zero hrank.symm]
      exact .nil
  | cons i rest ih =>
      cases extents with
      | nil => exact absurd hrank (by simp)
      | cons extent extents =>
          rw [List.zip_cons_cons, checkedCoordinates]
          split
          · trivial
          · exact (ih (Nat.succ.inj hrank) (d + 1)).bind fun _ hinside => .cons (by omega) hinside

/-- A location in a small stencil. A place that is known in advance is inside. -/
structure Location.Small (l : Location) : Prop where
  shape : l.shape.Small
  inside : ∀ flat, l.place = .fixed flat → flat < l.shape.extents.prod

theorem Location.Small.answers_element {l : Location} (h : l.Small) :
    Answers l.element fun _ => True := by
  unfold element
  simp only []
  split
  · next flat hplace =>
    have hle := Nat.mul_le_mul_right l.shape.elem.bits (Nat.le_of_lt (h.inside flat hplace))
    have hwidth := h.shape.width_lt
    exact .bind_of_ok (Word.mul_eq_ok.mpr ⟨by omega, rfl⟩) trivial
  · trivial

namespace Scope

open LoweringState

variable {s : Scope}

theorem Small.stencil? (h : s.Small) {signal : String} {shape : Shape}
    (hshape : s.stencil? signal = some shape) : shape.Small := by
  rcases Option.map_eq_some_iff.mp hshape with ⟨entry, hentry, rfl⟩
  exact h entry (List.mem_reverse.mp (List.mem_of_find?_eq_some hentry))

theorem answers_locate (h : s.Small) {name : String} {args : List Expr}
    {coordinates : Lowering (List Rtl.Expr)}
    (hcoordinates : Replying Wide coordinates fun _ => Wide) :
    Replying Wide (s.locate name args coordinates) fun l t => l.Small ∧ t.Wide := by
  unfold locate
  simp only []
  split
  · exact fun _ _ => trivial
  next shape hshape =>
  have hsmall := h.stencil? hshape
  split
  · exact fun _ _ => trivial
  next hrank =>
  have hrank := not_not.mp hrank
  split
  -- At coordinates known in advance the place is checked, so it lies in the element's word.
  · next index hindex =>
    have hlength : index.length = shape.extents.length := (length_of_mapM hindex).trans hrank
    refine .lift_bind (answers_checkedCoordinates hlength 0) fun coordinates _ hinside => ?_
    rcases flatIndex_of_inside hinside (Nat.lt_trans hsmall.elems_lt (by decide))
      with ⟨flat, hflat⟩
    refine .lift_bind (.of_ok (P := (· < _)) hflat (flatIndex_lt hinside hflat)) fun _ _ hlt =>
      .pure fun _ ht => ⟨⟨hsmall, fun _ hfixed => ?_⟩, ht⟩
    exact Place.fixed.inj hfixed ▸ hlt
  · exact hcoordinates.bind fun _ => .pure fun _ ht =>
      ⟨⟨hsmall, fun _ hfixed => absurd hfixed (by simp)⟩, ht⟩

theorem answers_variableValue (type : ScalarType) (name : String) :
    Replying Wide (s.variableValue type name) fun _ => Wide := by
  refine .get_bind fun r hr => ?_
  split
  · exact .pure fun _ hsame => hsame ▸ hr
  · exact .pure fun _ hsame => hsame ▸ hr

/-- What is read of a location. -/
theorem answers_access (h : s.Small) {type : ScalarType} {name : String} {args : List Expr}
    {coordinates : Lowering (List Rtl.Expr)}
    (hcoordinates : Replying Wide coordinates fun _ => Wide) :
    Replying Wide (do
      let location ← s.locate name args coordinates
      return type.read (← location.element)) fun _ => Wide :=
  (answers_locate h hcoordinates).bind_and fun _ hl =>
    .lift_bind hl.answers_element fun _ _ _ => .pure fun _ ht => ht

mutual

/-- Lowering a moderate expression answers. -/
theorem answers_lower (hs : s.Small) : ∀ e : Expr, e.Moderate →
    Replying Wide (s.lower e) fun _ => Wide
  | .intImm .., _ => .pure fun _ h => h
  | .uintImm .., _ => .pure fun _ h => h
  | .floatImm .., _ => fun _ _ => trivial
  | .textImm .., _ => fun _ _ => trivial
  | .load .., _ => fun _ _ => trivial
  | .var type name, _ => answers_variableValue type name
  | .cast type value, h => by
      rw [Expr.Moderate, Expr.nodes, List.forall_mem_cons] at h
      unfold lower
      split
      · exact fun _ _ => trivial
      · exact (answers_lower hs value h.2).bind fun _ =>
          (Lowering.answers_castWire h.1).bind fun _ => .pure fun _ h => h
  | .binary op a b, h => by
      simp only [Expr.Moderate, Expr.nodes, List.forall_mem_cons, List.forall_mem_append] at h
      exact (answers_lower hs a h.2.1).bind fun _ => (answers_lower hs b h.2.2).bind fun _ =>
        .pure fun _ h => h
  | .not a, h => by
      simp only [Expr.Moderate, Expr.nodes, List.forall_mem_cons] at h
      exact (answers_lower hs a h.2).bind fun _ => .pure fun _ h => h
  | .select condition ifTrue ifFalse, h => by
      simp only [Expr.Moderate, Expr.nodes, List.forall_mem_cons, List.forall_mem_append] at h
      exact (answers_lower hs condition h.2.1.1).bind fun _ =>
        (answers_lower hs ifTrue h.2.1.2).bind fun _ =>
          (answers_lower hs ifFalse h.2.2).bind fun _ => .pure fun _ h => h
  | .letIn name value body, h => by
      simp only [Expr.Moderate, Expr.nodes, List.forall_mem_cons, List.forall_mem_append] at h
      exact (answers_lower hs value h.2.1).bind fun _ =>
        Lowering.answers_binding (answers_lower hs body h.2.2)
  | .call type name args callType, h => by
      simp only [Expr.Moderate, Expr.nodes, List.forall_mem_cons] at h
      unfold lower
      split
      · exact answers_access hs (answers_coordinates hs args h.2)
      split
      · split <;> exact fun _ _ => trivial
      split
      · exact fun _ _ => trivial
      refine (answers_lowerAll hs args h.2).bind fun _ => ?_
      split
      · exact .pure fun _ h => h
      · exact .pure fun _ h => h
      · exact fun _ _ => trivial

theorem answers_lowerAll (hs : s.Small) : ∀ es : List Expr,
    (∀ x ∈ Expr.nodesOfList es, (Node.expr x).Moderate) →
    Replying Wide (s.lowerAll es) fun _ => Wide
  | [], _ => .pure fun _ h => h
  | e :: rest, h => by
      rw [Expr.nodesOfList, List.forall_mem_append] at h
      exact (answers_lower hs e h.1).bind fun _ => (answers_lowerAll hs rest h.2).bind fun _ =>
        .pure fun _ h => h

theorem answers_coordinates (hs : s.Small) : ∀ es : List Expr,
    (∀ x ∈ Expr.nodesOfList es, (Node.expr x).Moderate) →
    Replying Wide (s.coordinates es) fun _ => Wide
  | [], _ => .pure fun _ h => h
  | e :: rest, h => by
      rw [Expr.nodesOfList, List.forall_mem_append] at h
      have hrest := answers_coordinates hs rest h.2
      unfold coordinates
      split
      · exact hrest.bind fun _ => .pure fun _ h => h
      · exact (answers_lower hs e h.1).bind fun _ => hrest.bind fun _ => .pure fun _ h => h

end

end Scope

namespace AssemblyPlan

variable {p : AssemblyPlan}

theorem answers_indexWidth (h : p.shape.Small) : Answers p.indexWidth (0 < ·) :=
  .bind_of_ok h.elems_eq (bitsNeededFor_pos _)

/-- Results and their places have bits. -/
theorem resultPorts_pos {indexWidth bits : Nat} (hindex : 0 < indexWidth) (hbits : 0 < bits)
    (direction : Direction) (writes : Nat) :
    ∀ q ∈ (List.range writes).flatMap (resultPorts indexWidth bits direction), 0 < q.width := by
  intro q hq
  rcases List.mem_flatMap.mp hq with ⟨k, _, hq⟩
  rcases List.mem_pair.mp hq with rfl | rfl
  · exact hbits
  · exact hindex

theorem answers_ports (h : p.shape.Small) :
    Answers p.ports fun ports => ∀ q ∈ ports, 0 < q.width := by
  refine (answers_indexWidth h).bind fun indexWidth hindex => (Port.answers_ofShape h).bind
    fun out hout => h.answers_dataWidth.bind fun width hwidth => ?_
  have hnames : ∀ q ∈ Port.common ++ ["enable", "load", "last", "commit"].map fun name =>
      Port.input name 1, 0 < q.width := by decide
  refine List.forall_mem_append.mpr ⟨List.forall_mem_append.mpr ⟨List.forall_mem_append.mpr
    ⟨hnames, resultPorts_pos hindex h.bits_pos _ _⟩, hout⟩, ?_⟩
  exact List.forall_mem_cons.mpr ⟨Nat.one_pos, List.forall_mem_singleton.mpr hwidth⟩

theorem answers_body (h : p.shape.Small) : Answers p.body fun _ => True := by
  refine h.answers_dataWidth.bind fun width hwidth => Body.answers_join ?_
  have hmerged : Answers p.merged fun _ => True := trivial
  simp [hwidth, hmerged]

/-- The output assembly of a small stream can be made. -/
theorem answers_make (h : p.shape.Small) :
    Replying Workshop.Renderable p.make fun _ => Workshop.Renderable := by
  unfold make
  split
  · exact fun _ _ => trivial
  · exact Making.answers_unless (.lift_bind (answers_ports h) fun _ _ hports =>
      .lift_bind (answers_body h) fun _ _ _ => Making.answers_defined hports)

end AssemblyPlan

namespace StagePlan

variable {p : StagePlan}

namespace Small

variable (h : p.Small)

include h

theorem windows : ∀ entry ∈ p.windows, entry.2.Small := by
  refine List.forall_mem_map.mpr fun port hport => Shape.Small.asStencil ?_
  rcases List.mem_append.mp hport with hport | hport
  · exact h.inputs port hport
  · exact List.mem_singleton.mp hport ▸ h.output

theorem scope : p.scope.Small := by
  refine List.forall_mem_append.mpr ⟨List.forall_mem_append.mpr ⟨h.windows, fun q hq => ?_⟩,
    List.forall_mem_map.mpr h.stencils⟩
  exact h.params q (List.mem_of_mem_filter hq)

/-- The logic of moderate actions can be made. -/
theorem answers_lowerActions {actions : List Action} (hactions : ∀ a ∈ actions, a.Moderate)
    (indexWidth k : Nat) :
    Replying LoweringState.Wide (p.lowerActions indexWidth k actions) fun _ =>
      LoweringState.Wide := by
  induction actions generalizing k with
  | nil => exact .pure fun _ h => h
  | cons action rest ih =>
      rw [List.forall_mem_cons] at hactions
      have hfirst := hactions.1
      cases action with
      | letIn name value =>
          have hvalue := hfirst.exprs value (List.mem_singleton_self _)
          exact (Scope.answers_lower h.scope value hvalue).bind fun _ =>
            Lowering.answers_declareCasts.bind fun _ =>
              .lift_bind (Body.answers_net.mpr (hfirst.named name value rfl)) fun _ _ _ =>
                (ih hactions.2 k).bind fun _ => .pure fun _ h => h
      | provide stencil args value =>
          have hexprs := List.forall_mem_cons.mp hfirst.exprs
          have hargs := (Expr.forall_nodesOfList args).mpr hexprs.2
          refine (Scope.answers_lower h.scope value hexprs.1).bind fun _ =>
            (Scope.answers_locate h.scope (Scope.answers_coordinates h.scope args hargs)).bind_and
              fun location _ => Lowering.answers_declareCasts.bind fun _ => ?_
          -- A store is one into the output, one into a local stencil, or refused.
          split
          · exact (ih hactions.2 (k + 1)).bind fun _ => .pure fun _ h => h
          split
          · split
            · exact fun _ _ => trivial
            · exact (ih hactions.2 k).bind fun _ => .pure fun _ h => h
          · exact fun _ _ => trivial

omit h in
/-- The elements of a local stencil are among its bits. -/
theorem answers_localDrivers (stored : List StoredElement) {l : LocalStencil}
    (hl : l.shape.Small) : Answers (localDrivers stored l) fun _ => True := by
  refine .bind_of_ok hl.elems_eq ((Answers.mapM (R := fun _ => True) fun flat hflat => ?_).mono
    fun _ _ => trivial)
  have hle := Nat.mul_le_mul_right l.shape.elem.bits (Nat.le_of_lt (List.mem_range.mp hflat))
  have hwidth := hl.width_lt
  exact .bind_of_ok (Word.mul_eq_ok.mpr ⟨by omega, rfl⟩) trivial

theorem answers_commitValue : Replying LoweringState.Wide p.commitValue fun _ =>
    LoweringState.Wide := by
  unfold commitValue
  split
  · next guard hguard => exact Scope.answers_lower h.scope guard (h.writeGuard guard hguard)
  · exact .pure fun _ h => h

theorem answers_datapathBody : Replying LoweringState.Wide p.datapathBody fun _ =>
    LoweringState.Wide := by
  have hlocals : Answers p.localDeclarations fun _ => True :=
    Body.answers_join_map fun l hl => (h.stencils l hl).answers_dataWidth.bind fun _ hwidth =>
      Body.answers_wire.mpr hwidth
  have hdrivers : ∀ stored, Answers (Body.join (p.stencils.map (localDrivers stored))) fun _ =>
      True := fun stored =>
    Body.answers_join_map fun l hl => answers_localDrivers stored (h.stencils l hl)
  have hindex := AssemblyPlan.answers_indexWidth (p := p.writer) h.output
  exact .lift_bind hlocals fun _ _ _ => .lift_bind hindex fun width _ _ =>
    (h.answers_lowerActions h.actions width 0).bind fun _ => .lift_bind (hdrivers _) fun _ _ _ =>
      h.answers_commitValue.bind fun _ => Lowering.answers_declareCasts.bind fun _ =>
        .pure fun _ h => h

/-- The loops of a plan run if none of them is empty. -/
theorem runs (hloops : ∀ v ∈ p.vars, 0 < v.extent) : ∀ v ∈ p.vars, v.Runs := by
  intro v hv
  have hpos := hloops v hv
  have hmax : v.max = .ok (v.min + v.extent - 1) := Fallible.bind_ok.mpr
    ⟨_, Word.add_eq_ok.mpr ⟨h.vars v hv, rfl⟩, Word.sub_eq_ok.mpr ⟨by omega, rfl⟩⟩
  exact ⟨hpos, _, hmax⟩

theorem answers_datapathPorts (hruns : ∀ v ∈ p.vars, v.Runs) :
    Answers p.datapathPorts fun ports => ∀ q ∈ ports, 0 < q.width := by
  have hvars : ∀ v ∈ p.vars, Answers (varInput v) fun port => 0 < port.width := fun v hv =>
    .bind_of_ok (hruns v hv).width_eq (bitsNeededFor_pos _)
  have hoperands : ∀ operand ∈ p.windows ++ p.params,
      Answers (Port.ofShape operand.1 operand.2 .input) fun ports => ∀ q ∈ ports, 0 < q.width := by
    intro operand hoperand
    rcases List.mem_append.mp hoperand with hwindow | hparam
    · exact Port.answers_ofShape (h.windows operand hwindow)
    · exact Port.answers_ofShape (h.params operand hparam)
  refine (AssemblyPlan.answers_indexWidth h.output).bind fun width hwidth =>
    (Answers.mapM hvars).bind fun vars hvars => (Answers.mapM_flatten hoperands).bind
      fun operands hflat => ?_
  -- The ports in order: clock and reset, the loop variables, the operands, the results, and
  -- `commit`.
  have hcommon : ∀ q ∈ Port.common, 0 < q.width := by decide
  exact List.forall_mem_append.mpr ⟨List.forall_mem_append.mpr ⟨List.forall_mem_append.mpr
    ⟨List.forall_mem_append.mpr ⟨hcommon, hvars⟩, hflat⟩,
      AssemblyPlan.resultPorts_pos hwidth h.output.bits_pos _ _⟩,
    List.forall_mem_singleton.mpr Nat.one_pos⟩

theorem answers_makeDatapath (hruns : ∀ v ∈ p.vars, v.Runs) :
    Replying Workshop.Renderable p.makeDatapath fun _ => Workshop.Renderable := by
  exact .lift_bind (h.answers_datapathPorts hruns) fun ports _ hports =>
    .lift_bind (h.answers_datapathBody .initial (List.forall_mem_nil _)) fun _ _ _ =>
      Making.answers_defined hports

theorem answers_body {controlName datapathName writerName : String}
    (hruns : ∀ v ∈ p.vars, v.Runs) :
    Answers (p.body controlName datapathName writerName) fun _ => True := by
  have hvars : Answers (Body.join (p.vars.map fun v => do Body.wire v.name (← v.width))) fun _ =>
      True := Body.answers_join_map fun v hv =>
    .bind_of_ok (hruns v hv).width_eq (Body.answers_wire.mpr (bitsNeededFor_pos _))
  have hresults : Answers p.resultWires fun _ => True :=
    (AssemblyPlan.answers_indexWidth h.output).bind fun width hwidth =>
      Body.answers_join_map fun k _ => Body.answers_join (by simp [hwidth, h.output.bits_pos])
  have hwindow : Answers (do Body.wire "acc" (← p.output.shape.dataWidth)) fun _ => True :=
    h.output.answers_dataWidth.bind fun _ hwidth => Body.answers_wire.mpr hwidth
  refine Body.answers_join ?_
  simp only [List.forall_mem_cons, List.not_mem_nil, false_implies, implies_true, and_true]
  exact ⟨hvars, Body.answers_join_map fun _ _ => Body.answers_wire.mpr Nat.one_pos, hresults,
    hwindow, Body.answers_net.mpr Nat.one_pos, trivial, Body.answers_join_map fun _ _ => trivial⟩

/-- The modules of a stage can be made, or its plan is refused. -/
theorem answers_make {c : Component} (hc : c.Small) :
    Replying Workshop.Renderable (make c p) fun _ => Workshop.Renderable := by
  refine .lift_bind p.answers_validate fun _ _ hloops => Making.answers_unless ?_
  have hruns := h.runs hloops
  have hlatency : p.control.latency + 1 < Word.limit := by
    have hsame : p.control.latency = outputLatency := h.latency
    rw [hsame]
    decide
  exact (LoopControl.answers_make (c := p.control) hruns hlatency).bind fun _ =>
    (h.answers_makeDatapath hruns).bind fun _ => (AssemblyPlan.answers_make h.output).bind fun _ =>
      .lift_bind hc.answers_modulePorts fun _ _ hports =>
        .lift_bind (h.answers_body hruns) fun _ _ _ => Making.answers_defined hports

end Small

end StagePlan

end StencilRtl
