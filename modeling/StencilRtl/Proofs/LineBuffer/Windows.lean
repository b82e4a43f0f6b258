import StencilRtl.Proofs.LineBuffer.Stages
import StencilRtl.Proofs.Rtl.Making
import StencilRtl.Proofs.Rtl.Traces

/-!
# Windows of a Line Buffer

What the modules of a line buffer make of the images they are sent.

A line buffer is one stage or two. With a row stage the outer module has the logic of that
stage and an instance of the column stage, and between them there is a stream of slices:
it moves on wires of the outer module and on the input of the instance at once. So what
has moved on the output is what the one stage makes of what the other makes of the tiles,
and nothing needs to be said about time any more. What the stages make of images is known
from the plan.

Nothing is assumed of when tiles are offered and windows taken. Since a stage puts out no
less for more tiles, what has moved is always a prefix of the windows of the images, and
all windows of an image have moved when all its tiles have.

## Main definitions

* `LineBuffer.HasStages`: A module and its library have the stages of a plan.

## Theorems

* `LineBuffer.make_ok`: The stages are there if they could be made.
* `LineBuffer.HasStages.transfers_eq`: What has moved on the output of a line buffer.
* `LineBuffer.make_windows`: It is the windows of the images, one image after the other.
-/

namespace StencilRtl

namespace LineBuffer

open Rtl

variable {c : Component} {image : List Nat} {tile window : Shape} {w w' : Workshop}
  {name : String}

/-- The module of a column stage between slices and windows. -/
structure IsColumns (elem : ElemType) (rows : RowStage) (columns : ColumnStage) (m : Module) :
    Prop where
  ports : ∃ slicePorts windowPorts,
    Port.ofShape "in" (sliceShape elem rows) .input = .ok slicePorts ∧
      Port.ofShape "out" (windowShape elem rows columns) .output = .ok windowPorts ∧
        m.ports = Port.common ++ slicePorts ++ windowPorts
  body : columns.body elem.bits = .ok m.body

/-- A module has the stages of a plan, the column stage being a module of its own if
    there is a row stage. -/
inductive HasStages (c : Component) (elem : ElemType) (p : LineBufferPlan)
    (library : String → Option Module) (m : Module) : Prop where
  | columns {columns : ColumnStage} (ports : c.modulePorts = .ok m.ports)
      (plan : p.columnStage = .ok columns) (alone : p.rowStage = .ok none)
      (body : columns.body elem.bits = .ok m.body)
  | rows {columns : ColumnStage} {rows : RowStage} {columnName : String} {inner : Module}
      (ports : c.modulePorts = .ok m.ports) (plan : p.columnStage = .ok columns)
      (plan' : p.rowStage = .ok (some rows))
      (body : rowBody columnName elem rows columns = .ok m.body)
      (defined : library columnName = some inner) (isColumns : IsColumns elem rows columns inner)

/-- A module of a column stage is added under a name of its own. -/
theorem makeColumns_ok {parameters : Parameters} {elem : ElemType} {rows : RowStage}
    {columns : ColumnStage} {columnName : String} (hlacks : w.library.Lacks parameters)
    (h : Returns (makeColumns name parameters elem rows columns) w columnName w') :
    columnName = name ++ "_1D" ∧ ∃ d : Definition, d.name = columnName ∧
      w'.library = w.library.add d ∧ w.library.find? columnName = none ∧
        IsColumns elem rows columns d.content := by
  unfold makeColumns at h
  rcases returns_lift_bind.mp h with ⟨slicePorts, hslice, hwindows⟩
  rcases returns_lift_bind.mp hwindows with ⟨windowPorts, hwindow, hbodies⟩
  rcases returns_lift_bind.mp hbodies with ⟨body, hbody, hdefines⟩
  rcases returns_bind.mp hdefines with ⟨u, r', hdefine, hname⟩
  rcases returns_pure.mp hname with ⟨rfl, rfl⟩
  have hfree := Making.free_of_define hlacks hdefine
  exact ⟨rfl, _, rfl, Making.returns_define hfree hdefine, hfree,
    ⟨⟨slicePorts, windowPorts, hslice, hwindow, rfl⟩, hbody⟩⟩

theorem name_ne_columnName (name : String) : name ≠ name ++ "_1D" := by
  intro h
  have hlength := congrArg String.length h
  rw [String.length_append] at hlength
  exact absurd hlength (by simp)

/-- The stages are there if they could be made. -/
theorem make_ok (htile : c.portShape "in" = .ok tile) (hwindow : c.portShape "out" = .ok window)
    (hlacks : w.library.Lacks (.lineBuffer tile.elem tile.extents window.extents image))
    (h : Returns (make c image) w name w') : tile.elem = window.elem ∧ ∃ p m,
      LineBufferPlan.ofShapes tile.extents window.extents image = .ok p ∧
        w'.library.module? name = some m ∧
          HasStages c tile.elem p w'.library.module? m := by
  unfold make at h
  rcases returns_lift_bind.mp h with ⟨tile', htile', hwindows⟩
  rcases Except.ok.inj (htile.symm.trans htile') with rfl
  rcases returns_lift_bind.mp hwindows with ⟨window', hwindow', hchecks⟩
  rcases Except.ok.inj (hwindow.symm.trans hwindow') with rfl
  split at hchecks
  · rcases returns_lift_bind.mp hchecks with ⟨_, hchange, _⟩
    exact absurd hchange (by simp [malformed])
  · next helem =>
    rcases returns_lift_bind.mp hchecks with ⟨p, hplan, hneeds⟩
    generalize s!"LineBuffer_{tile.typeName}_to_{Shape.joined window.extents}_{Shape.joined image}"
      = chosen at hneeds
    rcases Making.returns_of_lacks hlacks hneeds with ⟨hfree, hmade⟩
    rcases returns_lift_bind.mp hmade with ⟨columns, hcolumns, hstages⟩
    rcases returns_lift_bind.mp hstages with ⟨rows, hrows, hmodules⟩
    refine ⟨not_not.mp helem, p, ?_⟩
    -- Without rows to keep the line buffer is one stage. Otherwise the column stage is a module
    -- of its own, which is made first and has another name.
    cases rows with
    | none =>
        rcases returns_lift_bind.mp hmodules with ⟨ports, hports, hbodies⟩
        rcases returns_lift_bind.mp hbodies with ⟨body, hbody, hdefines⟩
        rcases Making.module_of_define hfree hdefines with ⟨rfl, hmodule⟩
        exact ⟨_, hplan, hmodule, .columns hports hcolumns hrows hbody⟩
    | some rows =>
        rcases returns_bind.mp hmodules with ⟨columnName, r₁, hmake, hmodule⟩
        rcases returns_lift_bind.mp hmodule with ⟨ports, hports, hbodies⟩
        rcases returns_lift_bind.mp hbodies with ⟨body, hbody, hdefines⟩
        rcases returns_bind.mp hdefines with ⟨u, r', hdefine, hname⟩
        rcases returns_pure.mp hname with ⟨rfl, rfl⟩
        rcases makeColumns_ok hlacks hmake with ⟨hcolumn, d, hd, hadd, hfreeColumn, hinner⟩
        have hne : name ≠ columnName := hcolumn ▸ name_ne_columnName name
        have hfree' : r₁.library.find? name = none := by
          rw [hadd, Library.find?_add_of_ne (hd ▸ hne.symm), hfree]
        have hlibrary := Making.returns_define hfree' hdefine
        have hcontent : w'.library.find? columnName = some d := by
          rw [← hd] at hfreeColumn hne ⊢
          rw [hlibrary, Library.find?_add_of_ne hne, hadd, Library.find?_add_self hfreeColumn]
        refine ⟨⟨name, ports, body⟩, hplan, ?_, .rows hports hcolumns hrows hbody ?_ hinner⟩
        · rw [hlibrary, Library.module?, Library.find?_add_self hfree']
          rfl
        · rw [Library.module?, hcontent]
          rfl

section

variable {elem : ElemType} {rows : RowStage} {columns : ColumnStage} {m : Module}

/-- The ports of a column stage. -/
theorem columnPorts_eq {slicePorts windowPorts : List Port}
    (hslices : Port.ofShape "in" (sliceShape elem rows) .input = .ok slicePorts)
    (hwindows : Port.ofShape "out" (windowShape elem rows columns) .output = .ok windowPorts) :
    Port.common ++ slicePorts ++ windowPorts = Port.common ++
      [.input "in_value" (rows.tile0 * rows.window1 * rows.carry * elem.bits), .input "in_valid" 1,
       .output "in_ready" 1] ++
      [.output "out_value" (columns.window * (rows.window1 * rows.carry) * elem.bits),
       .output "out_valid" 1, .input "out_ready" 1] := by
  have hslice : (sliceShape elem rows).extents.prod * (sliceShape elem rows).elem.bits
      = rows.tile0 * rows.window1 * rows.carry * elem.bits := by
    simp [sliceShape, Shape.stream, RowStage.sliceExtents, Nat.mul_assoc]
  have hwindow : (windowShape elem rows columns).extents.prod
      * (windowShape elem rows columns).elem.bits
        = columns.window * (rows.window1 * rows.carry) * elem.bits := by
    simp [windowShape, Shape.stream, Nat.mul_assoc]
  rw [Port.ofShape_stream hslices rfl, Port.ofShape_stream hwindows rfl, hslice, hwindow]
  rfl

theorem IsColumns.ports_eq (h : IsColumns elem rows columns m) : m.ports = Port.common ++
    [.input "in_value" (rows.tile0 * rows.window1 * rows.carry * elem.bits), .input "in_valid" 1,
     .output "in_ready" 1] ++
    [.output "out_value" (columns.window * (rows.window1 * rows.carry) * elem.bits),
     .output "out_valid" 1, .input "out_ready" 1] := by
  rcases h.ports with ⟨slicePorts, windowPorts, hslices, hwindows, hports⟩
  exact hports.trans (columnPorts_eq hslices hwindows)

theorem IsColumns.carries (h : IsColumns elem rows columns m) : (reset, 1) ∈ m.signals ∧
    m.Carries "in" (rows.tile0 * rows.window1 * rows.carry * elem.bits) ∧
      m.Carries "out" (columns.window * (rows.window1 * rows.carry) * elem.bits) := by
  have hports : ∀ p : Port, ∀ i, m.ports[i]? = some p → (p.name, p.width) ∈ m.signals :=
    fun p i hp => Module.signals_of_port (List.mem_of_getElem? hp)
  rw [h.ports_eq] at hports
  exact ⟨hports _ 1 rfl, ⟨hports _ 2 rfl, hports _ 3 rfl, hports _ 4 rfl⟩,
    ⟨hports _ 5 rfl, hports _ 6 rfl, hports _ 7 rfl⟩⟩

/-- The connections of the instance of a column stage. -/
def columnConnections : List (String × Rtl.Expr) :=
  commonConnections ++
    [("in_value", .ref "col_in_value"), ("in_valid", .ref "col_in_valid"),
     ("in_ready", .ref "col_in_ready")] ++ sameNames ["out_value", "out_valid", "out_ready"]

/-- A module with a row stage has wires for the slices, the logic of the stage, and an
    instance of the column stage. -/
theorem rowBody_ok {columnName : String} (h : rowBody columnName elem rows columns = .ok m.body) :
    m.Carries "col_in" (rows.tile0 * rows.window1 * rows.carry * elem.bits) ∧
      (∃ items, rows.body elem.bits = .ok items ∧ ∀ i ∈ items, i ∈ m.body) ∧
        .submodule columnName "columns" columnConnections ∈ m.body := by
  rcases Fallible.bind_ok.mp h with ⟨slice, hslice, hrest⟩
  rcases Fallible.bind_ok.mp hrest with ⟨window, hwindow, hjoin⟩
  rw [signals_stream hslice rfl, signals_stream hwindow rfl] at hjoin
  rcases Body.join_part hjoin (fun i hi => hi) (List.mem_cons_self ..) with ⟨wires, hwires, hin⟩
  -- The wires are those of a slice, the other parts stand behind them.
  have hwidth : (sliceShape elem rows).extents.prod * (sliceShape elem rows).elem.bits
      = rows.tile0 * rows.window1 * rows.carry * elem.bits := by
    simp [sliceShape, Shape.stream, RowStage.sliceExtents, Nat.mul_assoc]
  rw [hwidth] at hwires
  refine ⟨⟨?_, ?_, ?_⟩, ?_, ?_⟩
  · exact Module.signals_of_wire (hin _ (Body.join_wire hwires (List.mem_cons_self ..)))
  · exact Module.signals_of_wire (hin _ (Body.join_wire hwires (List.mem_of_getElem? (i := 1) rfl)))
  · exact Module.signals_of_wire (hin _ (Body.join_wire hwires (List.mem_of_getElem? (i := 2) rfl)))
  · exact Body.join_part hjoin (fun i hi => hi) (List.mem_of_getElem? (i := 1) rfl)
  · rcases Body.join_ok hjoin _ (List.mem_of_getElem? (i := 2) rfl) with ⟨own, hown, hsub⟩
    rcases Except.ok.inj hown with rfl
    exact hsub _ (List.mem_singleton_self _)

end

section

variable {elem : ElemType} {p : LineBufferPlan} {library : String → Option Module} {m : Module}
  {Γ : Typing} {τ : Nat → State} {ds : List LineBufferDimension} {second : LineBufferDimension}
  {depth : Nat} {read : (List Nat → Nat) → Nat → Nat → Nat → Nat}

/-- A row stage and the instance of a column stage are two stages one after the other. -/
theorem rows_transfers_eq {rows : RowStage} {columns : ColumnStage} {columnName : String}
    {inner : Module} {rowGather columnGather : Gather}
    (hbody : rowBody columnName elem rows columns = .ok m.body)
    (hdefined : library columnName = some inner) (hinner : IsColumns elem rows columns inner)
    (h : m.Runs library Γ τ) (hreset : FromReset τ) (hclear : (reset, 1) ∈ m.signals)
    (hout : m.Carries "out" (columns.window * (rows.window1 * rows.carry) * elem.bits))
    (hrows : Gathers τ rowGather "in" "col_in")
    (hcolumns : ∀ Γ' τ', inner.Runs library Γ' τ' → FromReset τ' →
      Gathers τ' columnGather "in" "out") (t : Nat) :
    transfers τ "out" t = columnGather.outputs (rowGather.outputs (transfers τ "in" t)) := by
  rcases rowBody_ok hbody with ⟨hslices, _, hinstance⟩
  rcases h.instance_value hinstance with ⟨inner', Γ', τ', hdefined', hruns, hvalue⟩
  rcases Option.some.inj (hdefined.symm.trans hdefined') with rfl
  have hvalue' : ∀ p : Port, ∀ signal, ∀ i j, inner.ports[i]? = some p →
      columnConnections[j]? = some (p.name, Rtl.Expr.ref signal) → (signal, p.width) ∈ m.signals →
        ∀ t, (τ t).value signal = (τ' t).value p.name :=
    fun p signal i j hp hsignal =>
      hvalue p (List.mem_of_getElem? hp) signal (List.mem_of_getElem? hsignal)
  rw [hinner.ports_eq] at hvalue'
  -- The instance shares its ports with the signals it is connected to.
  have hreset' : FromReset τ' := by
    have hsame := hvalue' _ reset 1 1 rfl rfl hclear
    exact ⟨(hsame 0).symm.trans hreset.first, fun t => (hsame (t + 1)).symm.trans (hreset.later t)⟩
  have hinput : transfers τ "col_in" t = transfers τ' "in" t := by
    refine transfers_congr (fun t ending hending => ?_) t
    simp only [List.mem_cons, List.not_mem_nil, or_false] at hending
    rcases hending with rfl | rfl | rfl
    · exact hvalue' _ "col_in_value" 2 2 rfl rfl hslices.value (t + 1)
    · exact hvalue' _ "col_in_valid" 3 3 rfl rfl hslices.valid (t + 1)
    · exact hvalue' _ "col_in_ready" 4 4 rfl rfl hslices.ready (t + 1)
  have houtput : transfers τ "out" t = transfers τ' "out" t := by
    refine transfers_congr (fun t ending hending => ?_) t
    simp only [List.mem_cons, List.not_mem_nil, or_false] at hending
    rcases hending with rfl | rfl | rfl
    · exact hvalue' _ "out_value" 5 5 rfl rfl hout.value (t + 1)
    · exact hvalue' _ "out_valid" 6 6 rfl rfl hout.valid (t + 1)
    · exact hvalue' _ "out_ready" 7 7 rfl rfl hout.ready (t + 1)
  rw [houtput, (hcolumns Γ' τ' hruns hreset').transfers_eq, ← hinput, hrows.transfers_eq]

/-- What has moved on the output of a line buffer is made of what has moved on its input:
    the windows of some images of their tiles, and no less of more. -/
theorem HasStages.transfers_eq (hm : HasStages c elem p library m)
    (hlaid : p.Laid ds second depth read) (h : m.Runs library Γ τ) (hreset : FromReset τ)
    (hin : m.Carries "in" (p.first.tile * (second.tile * depth) * elem.bits))
    (hout : m.Carries "out" (p.first.window * (second.window * depth) * elem.bits)) :
    ∃ outputs : List Nat → List Nat, (∀ xs ys, xs <+: ys → outputs xs <+: outputs ys) ∧
      (∀ images : Nat → List Nat → Nat, (∀ k q, images k q < 2 ^ elem.bits) → ∀ n,
        outputs (blocksOf elem.bits (·.tile) ds images n)
          = blocksOf elem.bits (·.window) ds images n) ∧
      ∀ t, transfers τ "out" t = outputs (transfers τ "in" t) := by
  cases hm with
  | @columns columns ports plan alone body =>
      have hclear := Component.reset_of_modulePorts ports
      refine ⟨(columns.gather elem.bits p.first.kept).outputs,
        fun xs ys => Gather.outputs_prefix, ?_, ?_⟩
      · intro images himages n
        rw [← hlaid.outputs_slices_images plan himages n]
        exact congrArg _ (List.flatMap_congr fun k _ => (hlaid.slices_eq_tiles alone).symm)
      · have hfits := hlaid.fits_columns plan
        -- There is no row stage only because tiles are as high as windows.
        have hwhole : second.tile = second.window := by
          rcases hlaid.rowStage_ok alone with ⟨_, hwhole⟩ | ⟨_, hsome⟩
          · exact hwhole
          · exact absurd hsome (by simp)
        rw [hwhole] at hin
        rcases hlaid.columnStage_ok plan with rfl
        exact (ColumnStage.gathers hfits h hreset hclear hin hout body fun i hi => hi).transfers_eq
  | @rows columns rows columnName inner ports plan plan' body defined isColumns =>
      have hclear := Component.reset_of_modulePorts ports
      refine ⟨fun xs => (columns.gather elem.bits p.first.kept).outputs
        ((rows.gather elem.bits second.kept).outputs xs),
        fun xs ys hxs => Gather.outputs_prefix (Gather.outputs_prefix hxs), ?_, ?_⟩
      · intro images himages n
        exact (congrArg _ (hlaid.outputs_images plan' himages n)).trans
          (hlaid.outputs_slices_images plan himages n)
      · have hfits := hlaid.fits_columns plan
        have hfits' := hlaid.fits_rows plan'
        rcases rowBody_ok body with ⟨hslices, ⟨items, hitems, hsub⟩, _⟩
        rcases hlaid.columnStage_ok plan with rfl
        rcases hlaid.rowStage_ok plan' with ⟨hnone, _⟩ | ⟨_, hsome⟩
        · exact absurd hnone (by simp)
        · rcases Option.some.inj hsome with rfl
          rw [← Nat.mul_assoc] at hin
          have hlogic := RowStage.body_ok hfits' hitems hsub
          refine rows_transfers_eq body defined isColumns h hreset hclear hout
            (hlogic.gathers hfits' h hreset hclear hin hslices) fun Γ' τ' hruns hreset' => ?_
          rcases isColumns.carries with ⟨hclear', hin', hout'⟩
          rw [Nat.mul_assoc p.first.tile] at hin'
          exact ColumnStage.gathers hfits hruns hreset' hclear' hin' hout' isColumns.body
            fun i hi => hi

end

/-- What moves on the output of a line buffer is the windows of the images whose tiles
    have moved on its input: never another one, and all of them once the tiles have. -/
theorem make_windows {m : Module} {Γ : Typing} {τ : Nat → State}
    (htile : c.portShape "in" = .ok tile) (hwindow : c.portShape "out" = .ok window)
    (hstreams : tile.kind = .stream ∧ window.kind = .stream)
    (hregular : ∀ d ∈ LineBufferPlan.dimensionsOf tile.extents window.extents image, d.Regular)
    (hlacks : w.library.Lacks (.lineBuffer tile.elem tile.extents window.extents image))
    (hmake : Returns (make c image) w name w') (hm : w'.library.module? name = some m)
    (h : m.Runs w'.library.module? Γ τ) (hreset : FromReset τ)
    {images : Nat → List Nat → Nat} (himages : ∀ k q, images k q < 2 ^ tile.elem.bits) (n t : Nat)
    (htiles : transfers τ "in" t <+: blocksOf tile.elem.bits (·.tile)
      (LineBufferPlan.dimensionsOf tile.extents window.extents image) images n) :
    transfers τ "out" t <+: blocksOf tile.elem.bits (·.window)
        (LineBufferPlan.dimensionsOf tile.extents window.extents image) images n ∧
      ∀ k, blocksOf tile.elem.bits (·.tile)
          (LineBufferPlan.dimensionsOf tile.extents window.extents image) images k
            <+: transfers τ "in" t →
        blocksOf tile.elem.bits (·.window)
          (LineBufferPlan.dimensionsOf tile.extents window.extents image) images k
            <+: transfers τ "out" t := by
  rcases make_ok htile hwindow hlacks hmake with ⟨helem, p, m', hplan, hm', hstages⟩
  rcases Option.some.inj (hm.symm.trans hm') with rfl
  rcases LineBufferPlan.ofShapes_ok hplan hregular with ⟨second, depth, read, hlaid⟩
  have hports : c.modulePorts = .ok m.ports := by
    cases hstages with
    | columns ports => exact ports
    | rows ports => exact ports
  have hin := Component.carries_of_modulePorts hports htile hstreams.1
  have hout := Component.carries_of_modulePorts hports hwindow hstreams.2
  -- The ports are as wide as the tiles and windows of the plan.
  have hranks := LineBufferPlan.ofShapes_ranks hplan
  rw [← LineBufferPlan.dimensionsOf_tile hranks, hlaid.tile_prod] at hin
  rw [← LineBufferPlan.dimensionsOf_window hranks, hlaid.window_prod, ← helem] at hout
  rcases hstages.transfers_eq hlaid h hreset hin hout with ⟨outputs, hgrow, hblocks, htransfers⟩
  rw [htransfers, ← hblocks images himages n]
  refine ⟨hgrow _ _ htiles, fun k hk => ?_⟩
  rw [← hblocks images himages k]
  exact hgrow _ _ hk

/-- A line buffer for the one window of two by two elements in an image of that size. -/
def square : Component :=
  ⟨"LB_square", .lineBuffer [2, 2], [("in", .stream (.uint 8) [1, 1])],
    [("out", .stream (.uint 8) [2, 2])]⟩

/-- Its modules. -/
def squareWorkshop : Workshop := ((make square [2, 2]).run.run .empty).2

/-- The name of the outer one. -/
def squareName : String := "LineBuffer_UInt8_1x1_to_2x2_2x2"

/-- The image with the elements one to four. -/
def squareImage (p : List Nat) : Nat := (1 + p.getD 0 0 + 2 * p.getD 1 0) % 256

/-- Its elements are sent one after the other. The last one has to wait a cycle since the
    window is not taken at once. -/
def squareTrace : Trace where
  last := 6
  signals :=
    [("reset", [1]), ("in_value", [0, 1, 2, 3, 4, 4]), ("in_valid", [0, 1, 1, 1, 1, 1]),
     ("in_ready", [1, 1, 1, 1, 0, 1, 1]), ("out_ready", [1, 1, 1, 1, 0, 1, 1]),
     ("col", [0, 0, 1, 0, 1, 1]), ("row", [0, 0, 0, 1, 1, 1]), ("feed", [0, 0, 0, 1, 1, 1]),
     ("accept", [0, 1, 1, 1, 0, 1]), ("row_end", [0, 0, 1, 0, 0, 1]),
     ("rd_0", [0, 0, 0, 1, 2, 2, 3]), ("col_in_value", [0, 256, 512, 769, 1026, 1026, 3]),
     ("col_in_valid", [0, 0, 0, 1, 1, 1]), ("col_in_ready", [1, 1, 1, 1, 0, 1, 1]),
     ("out_value", [0, 16777216, 33554432, 50331904, 67305985, 67305985, 262914]),
     ("out_valid", [0, 0, 0, 0, 1, 1])]
  cells := [("mem_0", [[], [], [1], [1, 2], [3, 2], [3, 2], [3, 4]])]

/-- What the column stage sees of it. -/
def squareColumnsTrace : Trace where
  last := 6
  signals :=
    [("reset", [1]), ("in_value", [0, 256, 512, 769, 1026, 1026, 3]),
     ("in_valid", [0, 0, 0, 1, 1, 1]), ("in_ready", [1, 1, 1, 1, 0, 1, 1]),
     ("out_ready", [1, 1, 1, 1, 0, 1, 1]),
     ("out_value", [0, 16777216, 33554432, 50331904, 67305985, 67305985, 262914]),
     ("out_valid", [0, 0, 0, 0, 1, 1]), ("buf_0", [0, 0, 0, 0, 769, 769, 1026]),
     ("col", [0, 0, 0, 0, 1, 1]), ("emit", [0, 0, 0, 0, 1, 1]), ("accept", [0, 0, 0, 1, 0, 1])]
  cells := []

theorem squareTrace_runs :
    (squareWorkshop.library.moduleD squareName).Runs squareWorkshop.library.module?
      (squareWorkshop.library.moduleD squareName).typing squareTrace.state := by
  have hcolumns : (squareWorkshop.library.moduleD (squareName ++ "_1D")).Runs
      squareWorkshop.library.module?
      (squareWorkshop.library.moduleD (squareName ++ "_1D")).typing squareColumnsTrace.state :=
    Module.Follows.runs (by decide +kernel) (by decide +kernel)
  exact Module.Follows.runs_instance (by decide +kernel)
    (Library.module?_eq_moduleD (by decide +kernel)) hcolumns rfl (by decide +kernel)
    (by decide +kernel)

/-- The window has moved once the four elements have. -/
theorem make_windows_square : transfers squareTrace.state "in" 5 = [1, 2, 3, 4] ∧
    transfers squareTrace.state "out" 5
      = blocksOf 8 (·.window) (LineBufferPlan.dimensionsOf [1, 1] [2, 2] [2, 2])
          (fun _ => squareImage) 1 := by
  have hmade : Returns (make square [2, 2]) .empty squareName squareWorkshop :=
    Prod.ext (by decide +kernel) rfl
  have hreset : FromReset squareTrace.state := Trace.fromReset (by decide) (by decide +kernel)
  have htiles : transfers squareTrace.state "in" 5
      = blocksOf 8 (·.tile) (LineBufferPlan.dimensionsOf [1, 1] [2, 2] [2, 2])
          (fun _ => squareImage) 1 := by decide +kernel
  rcases make_windows (c := square) rfl rfl ⟨rfl, rfl⟩ (by decide)
    (fun d hd => absurd hd List.not_mem_nil) hmade (Library.module?_eq_moduleD (by decide +kernel))
    squareTrace_runs hreset (fun _ q => Nat.mod_lt _ (by decide)) 1 5
    ⟨[], (List.append_nil _).trans htiles⟩ with ⟨hbefore, hwhole⟩
  have hwindow := hwhole 1 ⟨[], (List.append_nil _).trans htiles.symm⟩
  exact ⟨by decide +kernel, hbefore.eq_of_length_le hwindow.length_le⟩

end LineBuffer

end StencilRtl
