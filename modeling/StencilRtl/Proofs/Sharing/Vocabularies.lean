import StencilRtl.Proofs.Sharing.Instances
import StencilRtl.Proofs.Sharing.Numbering

/-!
# Vocabularies of Modules

Which names a module takes from a kernel, and which names it has anyway.

Ports, signals, arrays and instances share the names of a module. Most modules are made from
shapes and numbers, and all of their names are written in the generator or numbered. Only the
slave interface, and of a stage the stage itself, its controller and its datapath, take names
from a kernel, and there they stand beside names that the generator has chosen. Nothing keeps
the two apart. So whether a module declares a name twice is a question to the names from the
kernel: whether they are different, and whether the generator has none of them.

## Main definitions

* `Vocabulary`, `Vocabulary.Clear`: The names of a module by their origin.
* `Part.vocabulary`: The vocabulary of the module of a part.
* `Built.names`: The names of what is built.

## Theorems

* `Part.nodup_of_build`: A module declares no name twice just if its vocabulary is clear.
-/

namespace StencilRtl

open Rtl

/-- The names of a module: those that come from a kernel, and those it has anyway. -/
structure Vocabulary where
  chosen : List String
  generated : List String
  deriving Repr

namespace Vocabulary

/-- The names that come from a kernel are different, and none of them is there anyway. -/
def Clear (v : Vocabulary) : Prop := v.chosen.Nodup ∧ ∀ name ∈ v.chosen, name ∉ v.generated

instance (v : Vocabulary) : Decidable v.Clear := inferInstanceAs (Decidable (_ ∧ _))

/-- If the names that are there anyway are different, it is the others that decide. -/
theorem nodup_iff_clear {v : Vocabulary} {names : List String}
    (hnames : names.Perm (v.chosen ++ v.generated)) (hgenerated : v.generated.Nodup) :
    names.Nodup ↔ v.Clear := by
  rw [hnames.nodup_iff, List.nodup_append]
  refine ⟨fun ⟨hchosen, _, hapart⟩ => ⟨hchosen, fun name hname hthere => ?_⟩,
    fun ⟨hchosen, hapart⟩ => ⟨hchosen, hgenerated, ?_⟩⟩
  · exact hapart name hname name hthere rfl
  · rintro name hname _ hthere rfl
    exact hapart name hname hthere

end Vocabulary

/-- The names of the signals of a component's ports. -/
def Component.lineNames (c : Component) : List String :=
  c.ports.flatMap fun (name, shape, _) => shape.lines.map (name ++ ·.ending)

/-- In a slave interface the ports have chosen names, and so has what remembers for them. -/
def SlaveInterface.vocabulary (c : Component) (map : RegisterMap) : Vocabulary where
  chosen := c.lineNames ++ ((doneInputs c).map seen ++ map.entries.map storage)
  generated := [clock, reset, "waddr", "raddr", "rdata", "r_start", "r_run", "r_done", "wr_state",
    "wr_next", "wr_en", "rd_state", "rd_next"]

/-- In a controller the loops have chosen names, and so have their registers. -/
def LoopControl.vocabulary (c : LoopControl) : Vocabulary where
  chosen := c.vars.map LoopVar.name ++ c.vars.map LoopVar.register
  generated := [clock, reset] ++ inputNames ++ outputNames
    ++ ["state", "flush", "step0", "step1", "window_done", "scan_done", "flush_done"]

namespace StagePlan

/-- The number of conversions in the datapath of a stage. -/
def castCount (p : StagePlan) : Nat := (p.datapathBody.run.run .initial).2.castCount

/-- In a datapath the loops, the windows, the parameters, the stencils and what is bound have
chosen names. -/
def datapathVocabulary (p : StagePlan) : Vocabulary where
  chosen := p.vars.map LoopVar.name
    ++ (p.windows ++ p.params).flatMap (fun (name, shape) => shape.lines.map (name ++ ·.ending))
    ++ (p.stencils.map LocalStencil.name ++ p.actions.filterMap Action.bound?)
  generated := [clock, reset, "commit"]
    ++ (p.resultSignals ++ (List.range p.castCount).map Lowering.castName)

/-- In a stage the ports and the loops have chosen names. -/
def vocabulary (c : Component) (p : StagePlan) : Vocabulary where
  chosen := c.lineNames ++ p.vars.map LoopVar.name
  generated := [clock, reset, "enable", "load", "last", "pop", "space", "commit", "acc", "in_valid",
    "control", "datapath", "writer"] ++ p.resultSignals

end StagePlan

/-- The vocabulary of the module of a part. Most modules take no names from a kernel. -/
def Part.vocabulary : Part → Vocabulary
  | .slave c map => SlaveInterface.vocabulary c map
  | .control c => c.vocabulary
  | .datapath p => p.datapathVocabulary
  | .stage c p => p.vocabulary c
  | _ => ⟨[], []⟩

/-- The names of what is built. -/
def Built.names (b : Built) : List String := b.ports.map Port.name ++ b.body.filterMap Item.name?

/-- The ports of a component's module have the names of its lines. -/
theorem Component.names_of_modulePorts {c : Component} {ports : List Port}
    (h : c.modulePorts = .ok ports) : ports.map Port.name = [clock, reset] ++ c.lineNames := by
  rw [modulePorts_lines h, List.map_append, List.map_flatMap]
  simp only [List.map_map]
  rfl

theorem Rtl.Port.names_ofShape {name : String} {shape : Shape} {direction : Direction}
    {ports : List Port} (h : Port.ofShape name shape direction = .ok ports) :
    ports.map Port.name = shape.lines.map (name ++ ·.ending) := by
  rw [Port.ofShape_ok h, List.map_map]
  rfl

/-! ### Numbered signals -/

/-- What is named by a number only. -/
theorem map_range_eq {f : Nat → String} {beginning : String}
    (hf : ∀ k, f k = beginning ++ toString k) (count : Nat) :
    (List.range count).map f = numbered count [⟨beginning, ""⟩] := by
  rw [numbered, List.map_eq_flatMap]
  refine List.flatMap_congr fun k _ => ?_
  rw [hf, List.map_singleton, Frame.name, String.append_empty]

/-- Two signals with one number. -/
theorem flatMap_range_eq {f g : Nat → String} {beginning beginning' : String}
    (hf : ∀ k, f k = beginning ++ toString k) (hg : ∀ k, g k = beginning' ++ toString k)
    (count : Nat) : (List.range count).flatMap (fun k => [f k, g k])
      = numbered count [⟨beginning, ""⟩, ⟨beginning', ""⟩] := by
  rw [numbered]
  refine List.flatMap_congr fun k _ => ?_
  rw [hf, hg, List.map_cons, List.map_singleton, Frame.name, Frame.name, String.append_empty,
    String.append_empty]

theorem StagePlan.resultSignals_eq (p : StagePlan) : p.resultSignals
    = numbered p.writer.writes [⟨"result_", ""⟩, ⟨"index_", ""⟩] :=
  flatMap_range_eq (fun _ => rfl) (fun _ => rfl) _

/-- Counters are numbered. -/
theorem ScanCounter.registers_eq {dims : List (Nat × Nat × Nat)} {counters : List ScanCounter}
    (h : ofDimensions 0 dims = .ok counters) :
    counters.map register = numbered dims.length [⟨"ctr_", ""⟩] := by
  rw [(counts_of_ofDimensions h).1, ← List.range_eq_range']
  exact map_range_eq (fun _ => rfl) _

/-! ### The modules of parts -/

/-- The names of a slave interface are those of its ports, its registers and its states. -/
theorem SlaveInterface.nodup_of_build (c : Component) (map : RegisterMap) :
    Making.Yields (Part.slave c map).build fun built =>
      built.names.Nodup ↔ (vocabulary c map).Clear := by
  refine .lift_bind fun _ _ => .lift_bind fun ports hports => .lift_bind fun body hbody =>
    .pure ?_
  refine Vocabulary.nodup_iff_clear ?_ (by simp only [vocabulary]; decide)
  rw [Built.names, Component.names_of_modulePorts hports, (declares_body _ _ _ hbody).1]
  -- The text has the names in its own order, so both sides count each of them.
  refine List.perm_iff_count.mpr fun name => ?_
  simp only [vocabulary, List.count_append, List.count_cons, List.count_nil]
  omega

/-- The ports of a controller. -/
theorem LoopControl.names_ports {c : LoopControl} {ports : List Port} (h : c.ports = .ok ports) :
    ports.map Port.name = [clock, reset] ++ inputNames ++ outputNames
      ++ c.vars.map LoopVar.name := by
  rcases Fallible.bind_ok.mp h with ⟨vars, hvars, h⟩
  have hnames : vars.map Port.name = c.vars.map LoopVar.name :=
    map_eq_of_forall₂ (Fallible.mapM_ok hvars) fun _ _ hq => (LoopVar.output_ok hq).1
  rw [← Except.ok.inj h, List.map_append, hnames]
  rfl

theorem LoopControl.nodup_of_build (c : LoopControl) :
    Making.Yields (Part.control c).build fun built => built.names.Nodup ↔ c.vocabulary.Clear := by
  refine .lift_bind fun ports hports => .lift_bind fun body hbody => .lift_bind fun _ _ => .pure ?_
  refine Vocabulary.nodup_iff_clear ?_ (by simp only [vocabulary]; decide)
  rw [Built.names, names_ports hports, (c.declares_body _ hbody).1]
  refine List.perm_iff_count.mpr fun name => ?_
  simp only [vocabulary, List.count_append]
  omega

namespace StagePlan

/-- The ports of a datapath. -/
theorem names_datapathPorts {p : StagePlan} {ports : List Port} (h : p.datapathPorts = .ok ports) :
    ports.map Port.name = [clock, reset] ++ p.vars.map LoopVar.name
      ++ (p.windows ++ p.params).flatMap (fun (name, shape) => shape.lines.map (name ++ ·.ending))
      ++ p.resultSignals ++ ["commit"] := by
  rcases Fallible.bind_ok.mp h with ⟨indexWidth, _, h⟩
  rcases Fallible.bind_ok.mp h with ⟨vars, hvars, h⟩
  rcases Fallible.bind_ok.mp h with ⟨operands, hoperands, h⟩
  have hvarNames : vars.map Port.name = p.vars.map LoopVar.name :=
    map_eq_of_forall₂ (Fallible.mapM_ok hvars) fun _ _ hq => (varInput_ok hq).1
  -- Windows and parameters have a port for each line of their shapes.
  have hoperandNames : operands.flatten.map Port.name = (p.windows ++ p.params).flatMap
      fun (name, shape) => shape.lines.map (name ++ ·.ending) := by
    rw [List.map_flatten, List.flatMap_def]
    refine congrArg List.flatten ?_
    exact map_eq_of_forall₂ (Fallible.mapM_ok hoperands) fun _ _ hq => Port.names_ofShape hq
  have hresultNames : ((List.range p.writer.writes).flatMap (AssemblyPlan.resultPorts indexWidth
      p.output.shape.elem.bits .output)).map Port.name = p.resultSignals := by
    rw [List.map_flatMap]
    rfl
  rw [← Except.ok.inj h]
  simp only [List.map_append, hvarNames, hoperandNames, hresultNames]
  rfl

/-- The names of a datapath, but for their order: what is bound stands between the conversions. -/
theorem names_datapath {p : StagePlan} {ports : List Port} {body : List Item}
    (hports : p.datapathPorts = .ok ports) (hbody : (p.datapathBody.run.run .initial).1 = .ok body) :
    (ports.map Port.name ++ body.filterMap Item.name?).Perm
      (p.datapathVocabulary.chosen ++ p.datapathVocabulary.generated) := by
  have hnames := (names_datapathBody (returns_of_run hbody)).perm
  rw [names_datapathPorts hports]
  refine (hnames.append_left _).trans (List.perm_iff_count.mpr fun name => ?_)
  simp only [datapathVocabulary, castCount, List.count_append, List.count_cons, List.count_nil]
  omega

theorem nodup_generated_datapath (p : StagePlan) : p.datapathVocabulary.generated.Nodup := by
  have hcasts := map_range_eq (f := Lowering.castName) (fun _ => rfl) p.castCount
  simp only [datapathVocabulary, p.resultSignals_eq, hcasts]
  exact nodup_append_numbered_numbered (by decide) _ _

theorem nodup_of_build_datapath (p : StagePlan) :
    Making.Yields (Part.datapath p).build fun built =>
      built.names.Nodup ↔ p.datapathVocabulary.Clear :=
  .lift_bind fun _ hports => .lift_bind fun _ hbody => .pure
    (Vocabulary.nodup_iff_clear (names_datapath hports hbody) p.nodup_generated_datapath)

theorem nodup_of_build (c : Component) (p : StagePlan) :
    Making.Yields (Part.stage c p).build fun built =>
      built.names.Nodup ↔ (p.vocabulary c).Clear := by
  refine .bind fun _ => .bind fun _ => .bind fun _ => .lift_bind fun ports hports =>
    .lift_bind fun body hbody => .pure ?_
  refine Vocabulary.nodup_iff_clear ?_ ?_
  · rw [Built.names, Component.names_of_modulePorts hports, (p.declares_body _ _ _ _ hbody).1]
    refine List.perm_iff_count.mpr fun name => ?_
    simp only [vocabulary, List.count_append, List.count_cons, List.count_nil]
    omega
  · simp only [vocabulary, p.resultSignals_eq]
    exact nodup_append_numbered (by decide) _

end StagePlan

/-! ### Modules without names from a kernel -/

/-- Streams have the names of a stream. -/
theorem Component.lineNames_between (kind : ComponentKind) (elem elem' : ElemType)
    (tile window : List Nat) :
    (between kind (.stream elem tile) (.stream elem' window)).lineNames = ["in_value", "in_valid",
      "in_ready", "out_value", "out_valid", "out_ready"] := rfl

/-- Names are different if, but for their order, they are known to be told apart. -/
theorem nodup_of_count {names literals : List String} {frames : List Frame}
    (h : Telling literals [frames]) (count : Nat)
    (hcount : ∀ name, names.count name = (literals ++ numbered count frames).count name) :
    names.Nodup :=
  (List.perm_iff_count.mpr hcount).nodup_iff.mpr (nodup_append_numbered h count)

/-- The names of the lines of an adapter. -/
def Adapter.lines : AdapterSide → List String
  | .inward => [startPort, "data_in_TDATA", "data_in_TVALID", "data_in_TREADY", "data_in_TLAST",
      donePort, "data_out_value", "data_out_valid", "data_out_ready"]
  | .outward => [startPort, "data_in_value", "data_in_valid", "data_in_ready", donePort,
      "data_out_TDATA", "data_out_TVALID", "data_out_TREADY", "data_out_TLAST"]

theorem Adapter.lineNames_adapterOf (side : AdapterSide) (elem : ElemType)
    (extents storeExtents : List Nat) : (Component.adapterOf ((Shape.stream elem
      extents).withStoreExtents storeExtents) side).lineNames = lines side := by
  cases side <;> rfl

theorem Adapter.nodup_of_build (side : AdapterSide) (elem : ElemType)
    (extents storeExtents : List Nat) :
    Making.Yields (Part.adapter side elem extents storeExtents).build fun built =>
      built.names.Nodup := by
  refine .lift_bind fun ports hports => .lift_bind fun _ _ => .lift_bind fun _ _ =>
    .lift_bind fun counters hcounters => .lift_bind fun body hbody => .pure ?_
  rcases Fallible.bind_ok.mp hcounters with ⟨last, _, hcounters⟩
  have hregisters := ScanCounter.registers_eq hcounters
  -- Only the counters are numbered, and all that matters is how many there are.
  generalize List.length _ = count at hregisters
  rw [Built.names, Component.names_of_modulePorts hports, lineNames_adapterOf,
    (declares_body _ _ _ _ hbody).1, hregisters]
  cases side with
  | inward =>
      have htelling : Telling ([clock, reset] ++ lines .inward ++ ["started", "r_value", "r_valid"]
          ++ ["accept"] ++ ["done"]) [[⟨"ctr_", ""⟩]] := by decide
      refine nodup_of_count htelling count fun name => ?_
      simp only [List.count_append, List.count_cons, List.count_nil]
      omega
  | outward =>
      have htelling : Telling ([clock, reset] ++ lines .outward ++ ["started", "r_value", "r_valid"]
          ++ ["r_last"] ++ ["accept"] ++ ["done"]) [[⟨"ctr_", ""⟩]] := by decide
      refine nodup_of_count htelling count fun name => ?_
      simp only [List.count_append, List.count_cons, List.count_nil]
      omega

theorem Queue.nodup_of_build (elem : ElemType) (extents : List Nat) (depth : Nat) :
    Making.Yields (Part.queue elem extents depth).build fun built => built.names.Nodup := by
  refine .lift_bind fun _ _ => .lift_bind fun ports hports => .lift_bind fun _ _ =>
    .lift_bind fun body hbody => .pure ?_
  rw [Built.names, Component.names_of_modulePorts hports, Component.lineNames_between,
    (declares_body _ _ _ hbody).1]
  decide

theorem AssemblyPlan.nodup_of_build (elem : ElemType) (extents : List Nat) (writes : Nat) :
    Making.Yields (Part.assembly elem extents writes).build fun built => built.names.Nodup := by
  refine .lift_bind fun ports hports => .lift_bind fun body hbody => .pure ?_
  rcases Fallible.bind_ok.mp hports with ⟨indexWidth, _, hports⟩
  rcases Fallible.bind_ok.mp hports with ⟨out, hout, hports⟩
  rcases Fallible.bind_ok.mp hports with ⟨width, _, hports⟩
  have hresults : ((List.range writes).flatMap
      (resultPorts indexWidth elem.bits .input)).map Port.name
        = numbered writes [⟨"result_", ""⟩, ⟨"index_", ""⟩] := by
    rw [List.map_flatMap]
    exact flatMap_range_eq (f := resultSignal) (g := indexSignal) (fun _ => rfl) (fun _ => rfl) _
  have hports : ports.map Port.name = [clock, reset, "enable", "load", "last", "commit"]
      ++ numbered writes [⟨"result_", ""⟩, ⟨"index_", ""⟩]
      ++ ["out_value", "out_valid", "out_ready"] ++ ["space", "acc_out"] := by
    rw [← Except.ok.inj hports, List.map_append, List.map_append, List.map_append,
      Port.names_ofShape hout]
    exact congrArg (fun results => [clock, reset, "enable", "load", "last", "commit"] ++ results
      ++ ["out_value", "out_valid", "out_ready"] ++ ["space", "acc_out"]) hresults
  -- The fixed names tell themselves from the numbered ones, whatever the number is.
  have htelling : Telling ([clock, reset, "enable", "load", "last", "commit"]
      ++ ["out_value", "out_valid", "out_ready"] ++ ["space", "acc_out"]
      ++ ["acc", "acc_next", "r_value", "r_valid", "write", "capture"])
        [[⟨"result_", ""⟩, ⟨"index_", ""⟩]] := by decide
  refine nodup_of_count htelling writes fun name => ?_
  rw [Built.names, hports, (declares_body _ _ hbody).1]
  simp only [List.count_append]
  omega

/-- What a column stage keeps is numbered. -/
theorem ColumnStage.tileSignals_eq (kept : Nat) :
    (List.range kept).map (tileSignal kept) = numbered kept [⟨"buf_", ""⟩] := by
  rw [← map_range_eq (f := fun k => "buf_" ++ toString k) fun _ => rfl]
  exact List.map_congr_left fun k hk => if_pos (List.mem_range.mp hk)

theorem ColumnStage.nodup_names (s : ColumnStage) (elemWidth : Nat) {items : List Item}
    (h : s.body elemWidth = .ok items) : ([clock, reset] ++ ["in_value", "in_valid", "in_ready",
      "out_value", "out_valid", "out_ready"] ++ items.filterMap Item.name?).Nodup := by
  rcases Fallible.bind_ok.mp h with ⟨kept, hkept, _⟩
  rw [(s.declares_body elemWidth hkept _ h).1]
  split
  · decide
  · have htelling : Telling ([clock, reset] ++ ["in_value", "in_valid", "in_ready", "out_value",
        "out_valid", "out_ready"] ++ ["col", "emit", "accept"]) [[⟨"buf_", ""⟩]] := by decide
    refine nodup_of_count htelling kept fun name => ?_
    rw [tileSignals_eq]
    simp only [List.count_append]
    omega

theorem ColumnStage.nodup_of_build (elem : ElemType) (tile window image : List Nat)
    (rows : RowStage) (cols : ColumnStage) :
    Making.Yields (Part.columns elem tile window image rows cols).build fun built =>
      built.names.Nodup := by
  refine .lift_bind fun slicePorts hslice => .lift_bind fun windowPorts hwindow =>
    .lift_bind fun body hbody => .pure ?_
  have hports : (Port.common ++ slicePorts ++ windowPorts).map Port.name = [clock, reset]
      ++ ["in_value", "in_valid", "in_ready", "out_value", "out_valid", "out_ready"] := by
    rw [List.map_append, List.map_append, Port.names_ofShape hslice, Port.names_ofShape hwindow]
    rfl
  rw [Built.names, hports]
  exact cols.nodup_names elem.bits hbody

/-- The rows a line buffer keeps are numbered, and so are the registers behind them. -/
theorem RowStage.rowNames_eq (kept : Nat) :
    (List.range kept).flatMap (fun m => [s!"mem_{m}", rowSignal kept m])
      = numbered kept [⟨"mem_", ""⟩, ⟨"rd_", ""⟩] := by
  rw [← flatMap_range_eq (f := fun k => "mem_" ++ toString k) (g := fun k => "rd_" ++ toString k)
    (fun _ => rfl) fun _ => rfl]
  refine List.flatMap_congr fun m hm => ?_
  rw [rowSignal, if_pos (List.mem_range.mp hm)]
  rfl

theorem LineBuffer.nodup_of_build (elem : ElemType) (tile window image : List Nat) :
    Making.Yields (Part.lineBuffer elem tile window image).build fun built =>
      built.names.Nodup := by
  refine .lift_bind fun plan _ => .lift_bind fun columns _ => .lift_bind fun stage? _ => ?_
  cases stage? with
  | none =>
      refine .lift_bind fun ports hports => .lift_bind fun body hbody => .pure ?_
      rw [Built.names, Component.names_of_modulePorts hports, Component.lineNames_between]
      exact columns.nodup_names elem.bits hbody
  | some rows =>
      refine .bind fun columnName => .lift_bind fun ports hports => .lift_bind fun body hbody =>
        .pure ?_
      -- Each row that is kept has a memory and a word that is read from it.
      rcases Fallible.bind_ok.mp hbody with ⟨_, _, hrows⟩
      rcases Fallible.bind_ok.mp hrows with ⟨_, _, hrows⟩
      rcases Body.join_ok hrows _ (List.mem_of_getElem? (i := 1) rfl) with ⟨_, hown, _⟩
      rcases Fallible.bind_ok.mp hown with ⟨kept, hkept, _⟩
      have htelling : Telling ([clock, reset] ++ ["in_value", "in_valid", "in_ready", "out_value",
          "out_valid", "out_ready"] ++ ["col_in_value", "col_in_valid", "col_in_ready"]
            ++ ["col", "row", "widx", "feed", "accept", "row_end"] ++ ["columns"])
              [[⟨"mem_", ""⟩, ⟨"rd_", ""⟩]] := by decide
      refine nodup_of_count htelling kept fun name => ?_
      rw [Built.names, Component.names_of_modulePorts hports, Component.lineNames_between,
        (declares_rowBody _ _ _ _ hkept _ hbody).1, RowStage.rowNames_eq]
      simp only [List.count_append]
      omega

namespace DispatchPlan

/-- The ports of a router: those for its consumers are numbered. -/
theorem lineNames_routerOf (elem : ElemType) (extents : List Nat) (p : DispatchPlan) :
    (Component.routerOf (.stream elem extents) p).lineNames
      = [startPort, "in_value", "in_valid", "in_ready", donePort] ++ numbered p.consumers.length
        [⟨"out_", "_value"⟩, ⟨"out_", "_valid"⟩, ⟨"out_", "_ready"⟩] := by
  have hnumbers : p.consumers.zipIdx.map Prod.snd = List.range p.consumers.length := by
    rw [List.zipIdx_map_snd, List.range_eq_range']
  rw [numbered, ← hnumbers, List.flatMap_map]
  simp only [Component.lineNames, Component.ports, Component.routerOf, List.map_cons, List.map_nil,
    List.map_map, List.flatMap_append, List.flatMap_cons, List.flatMap_map]
  rfl

theorem nodup_of_build (elem : ElemType) (extents : List Nat) (p : DispatchPlan) :
    Making.Yields (Part.router elem extents p).build fun built => built.names.Nodup := by
  refine .lift_bind fun ports hports => .lift_bind fun counters hcounters =>
    .lift_bind fun body hbody => .bind fun _ => .pure ?_
  rcases Fallible.bind_ok.mp hcounters with ⟨last, _, hcounters⟩
  have hregisters := ScanCounter.registers_eq hcounters
  generalize List.length _ = count at hregisters
  have hboxes : (List.range p.consumers.length).map inBoxSignal
      = numbered p.consumers.length [⟨"inbox_", ""⟩] := map_range_eq (fun _ => rfl) _
  have htelling : Telling ([clock, reset] ++ [startPort, "in_value", "in_valid", "in_ready",
      donePort] ++ ["accept"]) [[⟨"out_", "_value"⟩, ⟨"out_", "_valid"⟩, ⟨"out_", "_ready"⟩],
        [⟨"ctr_", ""⟩], [⟨"inbox_", ""⟩]] := by decide
  have hall := nodup_of_telling htelling [p.consumers.length, count, p.consumers.length]
  refine (List.perm_iff_count.mpr fun name => ?_).nodup_iff.mpr hall
  rw [Built.names, Component.names_of_modulePorts hports, lineNames_routerOf,
    (p.declares_body _ _ hbody).1, hregisters, consumerNumbers, hboxes]
  simp only [families, List.zip_cons_cons, List.zip_nil_left, List.flatMap_cons, List.flatMap_nil,
    List.count_append, List.count_nil]
  omega

end DispatchPlan

/-- The module of a part declares no name twice just if its vocabulary is clear. -/
theorem Part.nodup_of_build (κ : Part) :
    Making.Yields κ.build fun built => built.names.Nodup ↔ κ.vocabulary.Clear := by
  have hnone : (⟨[], []⟩ : Vocabulary).Clear := ⟨List.nodup_nil, List.forall_mem_nil _⟩
  cases κ with
  | slave c map => exact SlaveInterface.nodup_of_build c map
  | control c => exact c.nodup_of_build
  | datapath p => exact p.nodup_of_build_datapath
  | stage c p => exact p.nodup_of_build c
  | adapter side elem extents storeExtents =>
      exact fun w b w' h => iff_of_true (Adapter.nodup_of_build _ _ _ _ w b w' h) hnone
  | queue elem extents depth =>
      exact fun w b w' h => iff_of_true (Queue.nodup_of_build _ _ _ w b w' h) hnone
  | lineBuffer elem tile window image =>
      exact fun w b w' h => iff_of_true (LineBuffer.nodup_of_build _ _ _ _ w b w' h) hnone
  | columns elem tile window image rows cols =>
      exact fun w b w' h => iff_of_true (ColumnStage.nodup_of_build _ _ _ _ _ _ w b w' h) hnone
  | router elem extents plan =>
      exact fun w b w' h => iff_of_true (DispatchPlan.nodup_of_build _ _ _ w b w' h) hnone
  | assembly elem extents writes =>
      exact fun w b w' h => iff_of_true (AssemblyPlan.nodup_of_build _ _ _ w b w' h) hnone

end StencilRtl
