import StencilRtl.Proofs.LineBuffer.Plan
import StencilRtl.Proofs.Rtl.Connections
import StencilRtl.Proofs.Sharing.Contents
import StencilRtl.Proofs.Sharing.Stages

/-!
# Instances inside Modules

How the modules inside stages and line buffers are wired.

Only two kinds of modules have instances of others in them. A stage has its controller, its
datapath and its output assembly, and a line buffer with a row stage has its column stage.
Ports of an inner module are computed from the plan in one place and the connections of its
instance in another one, so each instance needs an argument of its own. What all of them
share is what the module around them declares: first its signals are read off once, and then
each connection is looked up there.

## Main definitions

* `StagePlan.OffersPorts`: The signals among the ports of a stage.
* `StagePlan.Offers`: All signals of a stage.

## Theorems

* `Part.ports_of_build`: A module has the ports of its part.
* `StagePlan.offers_of_body`: What the body of a stage declares.
* `Offers.wired_controller`, `Offers.wired_datapath`, `Offers.wired_assembly`: The
  modules inside a stage are wired.
* `LineBuffer.wired_columns`: The column stage of a line buffer is wired.
-/

namespace StencilRtl

open Rtl

/-- A module has the ports of its part. -/
theorem Part.ports_of_build (κ : Part) :
    Making.Yields κ.build fun built => κ.ports = .ok built.ports := by
  cases κ with
  | slave c map =>
      exact .lift_bind fun _ _ => .lift_bind fun _ hports => .lift_bind fun _ _ => .pure hports
  | adapter side elem extents storeExtents =>
      exact .lift_bind fun _ hports => .lift_bind fun _ _ => .lift_bind fun _ _ =>
        .lift_bind fun _ _ => .lift_bind fun _ _ => .pure hports
  | queue elem extents depth =>
      exact .lift_bind fun _ _ => .lift_bind fun _ hports => .lift_bind fun _ _ =>
        .lift_bind fun _ _ => .pure hports
  | lineBuffer elem tile window image =>
      refine .lift_bind fun _ _ => .lift_bind fun _ _ => .lift_bind fun stage? _ => ?_
      cases stage? with
      | none => exact .lift_bind fun _ hports => .lift_bind fun _ _ => .pure hports
      | some rows =>
          exact .bind fun _ => .lift_bind fun _ hports => .lift_bind fun _ _ => .pure hports
  | columns elem tile window image rows cols =>
      refine .lift_bind fun slicePorts hslice => .lift_bind fun windowPorts hwindow =>
        .lift_bind fun _ _ => .pure ?_
      -- These ports are put together from those of two streams.
      rw [ports, hslice, hwindow]
      rfl
  | router elem extents plan =>
      exact .lift_bind fun _ hports => .lift_bind fun _ _ => .lift_bind fun _ _ =>
        .bind fun _ => .pure hports
  | control c =>
      exact .lift_bind fun _ hports => .lift_bind fun _ _ => .lift_bind fun _ _ => .pure hports
  | datapath p => exact .lift_bind fun _ hports => .lift_bind fun _ _ => .pure hports
  | assembly elem extents writes =>
      exact .lift_bind fun _ hports => .lift_bind fun _ _ => .pure hports
  | stage c p =>
      exact .bind fun _ => .bind fun _ => .bind fun _ => .lift_bind fun _ hports =>
        .lift_bind fun _ _ => .pure hports

/-- The port a controller has for a loop has the name and the width of the loop. -/
theorem LoopVar.output_ok {v : LoopVar} {q : Port} (h : v.output = .ok q) :
    q.name = v.name ∧ v.width = .ok q.width := by
  rcases Fallible.bind_ok.mp h with ⟨width, hwidth, h⟩
  rw [← Except.ok.inj h]
  exact ⟨rfl, hwidth⟩

/-- So has that of a datapath. -/
theorem StagePlan.varInput_ok {v : LoopVar} {q : Port} (h : varInput v = .ok q) :
    q.name = v.name ∧ v.width = .ok q.width := by
  rcases Fallible.bind_ok.mp h with ⟨width, hwidth, h⟩
  rw [← Except.ok.inj h]
  exact ⟨rfl, hwidth⟩

/-- The clock and the reset of a component's module are signals of it. -/
theorem Component.wired_common {c : Component} {m : Module} (h : c.modulePorts = .ok m.ports) :
    Wired m.signals Port.common commonConnections := by
  have hcommon : ∀ q ∈ Port.common, (q.name, q.width) ∈ m.signals := by
    intro q hq
    refine Module.signals_of_port ?_
    rw [modulePorts_lines h]
    exact List.mem_append_left _ hq
  exact .common (hcommon _ (List.mem_cons_self ..)) (hcommon _ (List.mem_of_getElem? (i := 1) rfl))

namespace StagePlan

/-- The signals of the ports of a stage. -/
structure OffersPorts (p : StagePlan) (m : Module) : Prop where
  common : Wired m.signals Port.common commonConnections
  start : (startPort, 1) ∈ m.signals
  done : (donePort, 1) ∈ m.signals
  inputs : ∀ i ∈ p.inputs,
    (i.port ++ "_value", i.shape.extents.prod * i.shape.elem.bits) ∈ m.signals
  params : ∀ q ∈ p.params, (q.1, q.2.extents.prod * q.2.elem.bits) ∈ m.signals
  output : m.Carries p.output.port (p.output.shape.extents.prod * p.output.shape.elem.bits)

/-- The signals of a stage: those of its ports and those between the modules in it. -/
structure Offers (p : StagePlan) (m : Module) : Prop extends p.OffersPorts m where
  vars : ∀ v ∈ p.vars, ∀ width, v.width = .ok width → (v.name, width) ∈ m.signals
  bits : ∀ name ∈ ["enable", "load", "last", "pop", "space", "commit", "in_valid"],
    (name, 1) ∈ m.signals
  results : ∀ indexWidth, p.writer.indexWidth = .ok indexWidth →
    ∀ k ∈ List.range p.writer.writes, (resultSignal k, p.output.shape.elem.bits) ∈ m.signals ∧
      (indexSignal k, indexWidth) ∈ m.signals
  acc : ("acc", p.output.shape.extents.prod * p.output.shape.elem.bits) ∈ m.signals

variable {p : StagePlan} {m : Module} {signals : List (String × Nat)}

theorem offersPorts_of_component {c : Component} (hc : Construction.stageComponent p = .ok c)
    (hp : p.Proper) (hports : c.modulePorts = .ok m.ports) : p.OffersPorts m := by
  rcases Construction.stageComponent_eq hc with rfl
  -- The ports of the module are the lines of the ports of the component.
  have hin : ∀ name shape, (name, shape) ∈ (startPort, Shape.bit) ::
      (p.inputs.map (fun i => (i.port, i.shape)) ++ p.params) → ∀ l ∈ shape.lines,
      (name ++ l.ending, l.width) ∈ m.signals := fun name shape hmem l hl =>
    Component.line_of_modulePorts hports
      (List.mem_append_left _ (List.mem_map.mpr ⟨(name, shape), hmem, rfl⟩)) hl
  have hout : ∀ name shape, (name, shape) ∈ [(donePort, Shape.bit), (p.output.port,
      p.output.shape)] → ∀ l ∈ shape.lines, (name ++ l.ending, l.width) ∈ m.signals :=
    fun name shape hmem l hl => Component.line_of_modulePorts hports
      (List.mem_append_right _ (List.mem_map.mpr ⟨(name, shape), hmem, rfl⟩)) hl
  have houtput := hout p.output.port p.output.shape (by simp)
  rw [Shape.lines, hp.output] at houtput
  refine ⟨Component.wired_common hports,
    hin startPort .bit (List.mem_cons_self ..) _ (List.mem_singleton_self _),
    hout donePort .bit (List.mem_cons_self ..) _ (List.mem_singleton_self _), fun i hi => ?_,
    fun q hq => ?_, ⟨houtput _ (List.mem_cons_self ..),
      houtput _ (List.mem_of_getElem? (i := 1) rfl), houtput _ (List.mem_of_getElem? (i := 2) rfl)⟩⟩
  · have hline := hin i.port i.shape
      (List.mem_cons_of_mem _ (List.mem_append_left _ (List.mem_map_of_mem hi)))
    rw [Shape.lines, hp.inputs i hi] at hline
    exact hline _ (List.mem_cons_self ..)
  · have hline := hin q.1 q.2 (List.mem_cons_of_mem _ (List.mem_append_right _ hq))
    rw [Shape.lines_plain (hp.params q hq)] at hline
    have hname := hline _ (List.mem_singleton_self _)
    rw [String.append_empty] at hname
    exact hname

/-- What the body of a stage declares besides the ports of its component. -/
theorem offers_of_body {c : Component} {controlName datapathName writerName : String}
    (hc : Construction.stageComponent p = .ok c) (hp : p.Proper)
    (hports : c.modulePorts = .ok m.ports)
    (hbody : p.body controlName datapathName writerName = .ok m.body) : p.Offers m := by
  -- The wires stand in the first parts of the body, in the order in which they are asked for.
  refine ⟨offersPorts_of_component hc hp hports, fun v hv width hwidth => ?_, fun name hname => ?_,
    fun indexWidth hindex k hk => ?_, ?_⟩
  · rcases Body.join_ok hbody _ (List.mem_cons_self ..) with ⟨own, hown, hsub⟩
    rcases Body.join_ok hown _ (List.mem_map_of_mem hv) with ⟨wire, hwire, hsub'⟩
    rcases Fallible.bind_ok.mp hwire with ⟨width', hwidth', hwire⟩
    rcases Except.ok.inj (hwidth.symm.trans hwidth') with rfl
    rw [(Body.wire_ok hwire).2] at hsub'
    exact Module.signals_of_wire (hsub _ (hsub' _ (List.mem_singleton_self _)))
  · rcases Body.join_ok hbody _ (List.mem_of_getElem? (i := 1) rfl) with ⟨own, hown, hsub⟩
    rcases List.mem_append.mp (show name ∈ ["enable", "load", "last", "pop", "space", "commit"]
      ++ ["in_valid"] from hname) with hname | hname
    · exact Module.signals_of_wire (hsub _ (Body.join_wire hown (List.mem_map_of_mem hname)))
    · rw [List.mem_singleton.mp hname]
      exact Module.signals_of_wire (Body.join_net hbody (List.mem_of_getElem? (i := 4) rfl)).1
  · rcases Body.join_ok hbody _ (List.mem_of_getElem? (i := 2) rfl) with ⟨own, hown, hsub⟩
    rcases Fallible.bind_ok.mp hown with ⟨indexWidth', hindex', hown⟩
    rcases Except.ok.inj (hindex.symm.trans hindex') with rfl
    rcases Body.join_ok hown _ (List.mem_map_of_mem hk) with ⟨pair, hpair, hsub'⟩
    exact ⟨Module.signals_of_wire (hsub _ (hsub' _ (Body.join_wire hpair (List.mem_cons_self ..)))),
      Module.signals_of_wire (hsub _ (hsub' _
        (Body.join_wire hpair (List.mem_of_getElem? (i := 1) rfl))))⟩
  · rcases Body.join_ok hbody _ (List.mem_of_getElem? (i := 3) rfl) with ⟨own, hown, hsub⟩
    rcases Fallible.bind_ok.mp hown with ⟨width, hwidth, hown⟩
    rcases Shape.dataWidth_ok hwidth with rfl
    rw [(Body.wire_ok hown).2] at hsub
    exact Module.signals_of_wire (hsub _ (List.mem_singleton_self _))

/-- Bits are wired to signals of the same names. -/
theorem wired_bits {names : List String} (direction : String → Direction)
    (hnames : ∀ name ∈ names, (name, 1) ∈ signals) :
    Wired signals (names.map fun name => ⟨name, 1, direction name⟩) (sameNames names) := by
  refine .same (by rw [List.map_map]; exact List.map_id _) fun q hq => ?_
  rcases List.mem_map.mp hq with ⟨name, hname, rfl⟩
  exact hnames name hname

namespace Offers

variable (h : p.Offers m) {ports : List Port}

include h

/-- Loop variables are wired to signals of the same names. -/
theorem wired_vars {output : LoopVar → Fallible Port}
    (houtput : ∀ v q, output v = .ok q → q.name = v.name ∧ v.width = .ok q.width)
    (hvars : p.vars.mapM output = .ok ports) :
    Wired m.signals ports (sameNames (p.vars.map LoopVar.name)) := by
  have hall := Fallible.mapM_ok hvars
  refine .same (map_eq_of_forall₂ hall fun v q hq => (houtput v q hq).1) fun q hq => ?_
  rcases exists_of_forall₂ hall.flip hq with ⟨v, hv, hq⟩
  rw [(houtput v q hq).1]
  exact h.vars v hv q.width (houtput v q hq).2

/-- So are the results. -/
theorem wired_results {indexWidth : Nat} (direction : Direction)
    (hindex : p.writer.indexWidth = .ok indexWidth) : Wired m.signals
      ((List.range p.writer.writes).flatMap
        (AssemblyPlan.resultPorts indexWidth p.output.shape.elem.bits direction))
      (sameNames p.resultSignals) := by
  rw [sameNames, resultSignals, List.map_flatMap]
  exact .flatMap fun k hk => .cons (.ref (h.results indexWidth hindex k hk).1)
    (.cons (.ref (h.results indexWidth hindex k hk).2) .nil)

/-- The controller of a stage is wired. -/
theorem wired_controller (moduleName : String) (hports : p.control.ports = .ok ports) :
    ∃ connections, p.controller moduleName = .submodule moduleName "control" connections ∧
      Wired m.signals ports connections := by
  refine ⟨_, rfl, ?_⟩
  rcases Fallible.bind_ok.mp hports with ⟨vars, hvars, hports⟩
  rw [← Except.ok.inj hports]
  have hbits : ∀ name ∈ [startPort, donePort, "in_valid", "space", "enable", "load", "last",
      "pop"], (name, 1) ∈ m.signals := by
    intro name hname
    simp only [List.mem_cons, List.not_mem_nil, or_false] at hname
    rcases hname with rfl | rfl | hname
    · exact h.start
    · exact h.done
    · exact h.bits name (by simp; tauto)
  -- This port alone is given an expression and not a signal of its own name.
  have hdrained : Port.WiredTo m.signals (.input "drained" 1)
      ("drained", .not (.ref (p.output.port ++ "_valid"))) :=
    ⟨rfl, fun _ hsame => absurd hsame (by simp)⟩
  refine (((h.common.append (wired_bits (fun name =>
    if name ∈ LoopControl.inputNames then .input else .output) hbits)).append
      (.cons hdrained .nil)).append (h.wired_vars (fun _ _ => LoopVar.output_ok) hvars)).of_perm
        (.append_right _ ?_)
  decide

/-- Its datapath is wired. -/
theorem wired_datapath (moduleName : String) (hp : p.Proper)
    (hports : p.datapathPorts = .ok ports) :
    ∃ connections, p.datapath moduleName = .submodule moduleName "datapath" connections ∧
      Wired m.signals ports connections := by
  refine ⟨_, rfl, ?_⟩
  rcases Fallible.bind_ok.mp hports with ⟨indexWidth, hindex, hports⟩
  rcases Fallible.bind_ok.mp hports with ⟨vars, hvars, hports⟩
  rcases Fallible.bind_ok.mp hports with ⟨operands, hoperands, hports⟩
  rw [← Except.ok.inj hports]
  have hcommit : Wired m.signals [.output "commit" 1] (sameNames ["commit"]) :=
    .cons (.ref (h.bits "commit" (by simp))) .nil
  -- Windows and parameters are no streams, so each of them is one port.
  have hplain : ∀ q ∈ p.windows ++ p.params, q.2.isStream = false := by
    intro q hq
    rcases List.mem_append.mp hq with hq | hq
    · rcases List.mem_map.mp hq with ⟨i, _, rfl⟩
      rfl
    · exact hp.params q hq
  have hflat : operands.flatten = (p.windows ++ p.params).map fun q =>
      Port.input q.1 (q.2.extents.prod * q.2.elem.bits) := by
    have hsingle := Fallible.mapM_eq_map (g := fun q : String × Shape =>
      [Port.input q.1 (q.2.extents.prod * q.2.elem.bits)]) (fun q hq own hown => by
        rw [Port.ofShape_ok hown, Shape.lines_plain (hplain q hq), List.map_singleton,
          String.append_empty]
        rfl) hoperands
    rw [hsingle, ← List.flatMap_def, List.map_eq_flatMap]
  have hwindows : Wired m.signals operands.flatten
      (p.inputs.map (fun s => (s.stencil, .ref (s.port ++ "_value")))
        ++ [(p.output.stencil, .ref "acc")] ++ sameNames (p.params.map Prod.fst)) := by
    rw [hflat, List.map_append, windows, List.map_append, List.map_append, List.map_map,
      List.map_singleton, List.map_singleton, sameNames, List.map_map]
    exact ((Wired.map fun i hi => .ref (h.inputs i hi)).append (.cons (.ref h.acc) .nil)).append
      (.map fun q hq => .ref (h.params q hq))
  have hwired := (((h.common.append (h.wired_vars (fun _ _ => varInput_ok) hvars)).append
    hwindows).append (h.wired_results .output hindex)).append hcommit
  simpa only [List.append_assoc] using hwired

/-- Its output assembly is wired. -/
theorem wired_assembly (moduleName : String)
    (hports : AssemblyPlan.ports ⟨.stream p.writer.shape.elem p.writer.shape.extents,
      p.writer.writes⟩ = .ok ports) :
    ∃ connections, p.assembly moduleName = .submodule moduleName "writer" connections ∧
      Wired m.signals ports connections := by
  refine ⟨_, rfl, ?_⟩
  rcases Fallible.bind_ok.mp hports with ⟨indexWidth, hindex, hports⟩
  rcases Fallible.bind_ok.mp hports with ⟨out, hout, hports⟩
  rcases Fallible.bind_ok.mp hports with ⟨width, hwidth, hports⟩
  rw [← Except.ok.inj hports, Port.ofShape_stream hout rfl, Shape.dataWidth_ok hwidth]
  have hbits : Wired m.signals (["enable", "load", "last", "commit", "space"].map fun name =>
      ⟨name, 1, if name = "space" then .output else .input⟩)
        (sameNames ["enable", "load", "last", "commit", "space"]) := by
    refine wired_bits (fun name => if name = "space" then .output else .input)
      fun name hname => h.bits name ?_
    simp only [List.mem_cons, List.not_mem_nil, or_false] at hname ⊢
    tauto
  have hstream : Wired m.signals [⟨"out" ++ "_value", p.output.shape.extents.prod
      * p.output.shape.elem.bits, .output⟩, ⟨"out" ++ "_valid", 1, .output⟩,
        ⟨"out" ++ "_ready", 1, .input⟩] (["_value", "_valid", "_ready"].map fun ending =>
          ("out" ++ ending, .ref (p.output.port ++ ending))) :=
    .cons (.ref h.output.value) (.cons (.ref h.output.valid) (.cons (.ref h.output.ready) .nil))
  have hacc : Wired m.signals [.output "acc_out" (p.output.shape.extents.prod
      * p.output.shape.elem.bits)] [("acc_out", .ref "acc")] := .cons (.ref h.acc) .nil
  refine ((((h.common.append hbits).append
    (h.wired_results .input hindex)).append hstream).append hacc).of_perm ?_
  -- The bit that tells of space stands behind the stream among the ports.
  have hmove : ∀ (inputs results stream rest : List Port) (space : Port),
      (inputs ++ [space] ++ (results ++ (stream ++ rest))).Perm
        (inputs ++ (results ++ (stream ++ space :: rest))) := by
    intro inputs results stream rest space
    rw [List.append_assoc, List.singleton_append, ← List.append_assoc results,
      ← List.append_assoc results]
    exact .append_left _ List.perm_middle.symm
  simp only [List.append_assoc]
  exact .append_left _ (hmove (["enable", "load", "last", "commit"].map fun name =>
    .input name 1) _ _ [_] (.output "space" 1))

end Offers

end StagePlan

/-- The column stage of a line buffer is wired: slices move on wires of the line buffer, and its
windows are those of the line buffer. -/
theorem LineBuffer.wired_columns {elem : ElemType} {tile window image : List Nat}
    {plan : LineBufferPlan} {rows : RowStage} {columns : ColumnStage} {columnName : String}
    {m : Module} {ports : List Port} (hplan : LineBufferPlan.ofShapes tile window image = .ok plan)
    (hrows : plan.rowStage = .ok (some rows)) (hcolumns : plan.columnStage = .ok columns)
    (hports : (Part.lineBuffer elem tile window image).ports = .ok m.ports)
    (hbody : rowBody columnName elem rows columns = .ok m.body)
    (hinner : (Part.columns elem tile window image rows columns).ports = .ok ports) :
    Wired m.signals ports columnConnections := by
  rcases rowBody_ok hbody with ⟨hslices, _, _⟩
  -- The columns make the windows of the whole line buffer, so their widths are the same.
  have hout : m.Carries "out" (columns.window * (rows.window1 * rows.carry) * elem.bits) := by
    rw [LineBufferPlan.stages_window hrows hcolumns, LineBufferPlan.ofShapes_window hplan]
    exact Component.carries_of_modulePorts (s := .stream elem window) hports rfl rfl
  have hslice : Wired m.signals [.input "in_value" (rows.tile0 * rows.window1 * rows.carry
      * elem.bits), .input "in_valid" 1, .output "in_ready" 1] [("in_value", .ref "col_in_value"),
        ("in_valid", .ref "col_in_valid"), ("in_ready", .ref "col_in_ready")] :=
    .cons (.ref hslices.value) (.cons (.ref hslices.valid) (.cons (.ref hslices.ready) .nil))
  have hwindow : Wired m.signals [.output "out_value" (columns.window * (rows.window1 * rows.carry)
      * elem.bits), .output "out_valid" 1, .input "out_ready" 1]
        (sameNames ["out_value", "out_valid", "out_ready"]) :=
    .cons (.ref hout.value) (.cons (.ref hout.valid) (.cons (.ref hout.ready) .nil))
  rcases Fallible.bind_ok.mp hinner with ⟨slicePorts, hslices, hinner⟩
  rcases Fallible.bind_ok.mp hinner with ⟨windowPorts, hwindows, hinner⟩
  rw [← Except.ok.inj hinner, columnPorts_eq hslices hwindows]
  exact ((Component.wired_common hports).append hslice).append hwindow

end StencilRtl
