import StencilRtl.Geometry.LineBuffer
import StencilRtl.Hardware.Library

/-!
# Line buffers

The hardware that turns tiles into overlapping windows.

The column stage keeps the last tiles in registers that shift whenever a tile is
taken, and emits a window from each tile that is not among the first of its row.
The row stage keeps rows of tiles in memories used in turn, the oldest one being
overwritten by the live tile, and feeds slices to a column stage from each row
that is not among the first of the image. A buffer with a row stage instantiates
its column stage as a module of its own.

## Main definitions

* `ColumnStage.body`, `RowStage.body`: The logic of the stages.
* `ColumnStage.windowElements`, `RowStage.sliceElements`: The elements they put together.
* `LineBuffer.make`: The modules of a line buffer component.
-/

namespace StencilRtl

open Rtl

/-- A counter from zero to `last`, moving whenever `move` holds. -/
def cyclicCounter (register : String) (width last : Nat) (move : String) : Body :=
  Body.register register (.number 0)
    [(.ref move,
      .mux (.hasValue register width last) (.literal width 0) (.plus register width 1))]

/-- An element of `width` bits inside the word held by a signal. -/
def elementOf (signal : String) (element width : Nat) : Fallible Rtl.Expr := do
  return .part (.ref signal) (← Word.mul element width) width

namespace ColumnStage

/-- The register of the kept tile with number `i`, the live one coming last. -/
def tileSignal (kept i : Nat) : String := if i < kept then s!"buf_{i}" else "in_value"

/-- The element in column `j` and row `r` of a window. -/
def windowElement (s : ColumnStage) (kept elemWidth j r : Nat) : Fallible Rtl.Expr := do
  let (tile, element) ← s.source j r
  elementOf (tileSignal kept tile) element elemWidth

/-- The elements of a window in order of their place in it. -/
def windowElements (s : ColumnStage) (kept elemWidth : Nat) : Fallible (List Rtl.Expr) := do
  let rows ← (List.range s.height).mapM fun r =>
    (List.range s.window).mapM fun j => s.windowElement kept elemWidth j r
  return rows.flatten

/-- The kept tiles move on when a tile is taken. -/
def shift (kept i : Nat) : Body :=
  Body.enabled (.ref (tileSignal kept i)) (.ref "accept") (.ref (tileSignal kept (i + 1)))

/-- Tiles that are windows already pass through. -/
def passThrough : Body :=
  Body.join
    [Body.assign "out_value" (.ref "in_value"),
     Body.assign "out_valid" (.ref "in_valid"),
     Body.assign "in_ready" (.ref "out_ready")]

/-- The logic of a column stage that keeps tiles. -/
def buffered (s : ColumnStage) (kept elemWidth : Nat) : Body := do
  let tileWidth ← Word.mul (← Word.mul s.tile s.height) elemWidth
  let lastColumn ← Word.sub s.tilesPerRow 1
  let width := bitsNeededFor s.tilesPerRow
  Body.join
    [Body.join ((List.range kept).map fun i => Body.reg (tileSignal kept i) tileWidth),
     Body.reg "col" width,
     Body.net "emit" 1 (.binary .ge (.ref "col") (.literal width kept)),
     Body.assign "out_valid" (.and (.ref "in_valid") (.ref "emit")),
     Body.assign "in_ready" (.or (.ref "out_ready") (.not (.ref "emit"))),
     Body.net "accept" 1 (.and (.ref "in_valid") (.ref "in_ready")),
     cyclicCounter "col" width lastColumn "accept",
     Body.join ((List.range kept).map (shift kept)),
     do Body.assign "out_value" (.concat (← s.windowElements kept elemWidth))]

/-- The logic of a column stage. -/
def body (s : ColumnStage) (elemWidth : Nat) : Body := do
  let kept ← s.buffers
  if kept = 0 then passThrough else s.buffered kept elemWidth

end ColumnStage

namespace RowStage

/-- The signal of the tile in the row with number `i`, the live one coming
    last. -/
def rowSignal (kept i : Nat) : String := if i < kept then s!"rd_{i}" else "in_value"

/-- The element at `i`, `j`, `k` of a slice. -/
def sliceElement (s : RowStage) (kept elemWidth i j k : Nat) : Fallible Rtl.Expr := do
  let (row, element) ← s.source i j k
  elementOf (rowSignal kept row) element elemWidth

/-- The elements of a slice in order of their place in it. -/
def sliceElements (s : RowStage) (kept elemWidth : Nat) : Fallible (List Rtl.Expr) := do
  let planes ← (List.range s.carry).mapM fun k =>
    (List.range s.window1).mapM fun j =>
      (List.range s.tile0).mapM fun i => s.sliceElement kept elemWidth i j k
  return (planes.map List.flatten).flatten

/-- The tile of the current column in the memory with number `m`. -/
def rowElement (m : Nat) : Rtl.Expr := .element s!"mem_{m}" (.ref "col")

/-- The oldest row takes the live tile. -/
def rowWrite (kept : Nat) : Body :=
  Body.item (.process .clocked
    [.when (.ref "accept")
      [.case (.ref "widx")
        ((List.range kept).map fun m =>
          (signed32 m, [.update (rowElement m) (.ref "in_value")]))
        none]])

/-- The rows in order of their age if the memory with number `oldest` holds the
    oldest one. -/
def rowsInOrder (kept oldest : Nat) : List Rtl.Stmt :=
  (List.range kept).map fun row =>
    .set (.ref (rowSignal kept row)) (rowElement ((oldest + row) % kept))

/-- The kept rows in order of their age. All of them are read in the branch of each
    turn, and a word has to count that many statements. -/
def rowRead (kept : Nat) : Body := do
  let _ ← Word.mul kept kept
  Body.item (.process .combinational
    [.case (.ref "widx")
      ((List.range kept).map fun oldest => (signed32 oldest, rowsInOrder kept oldest))
      (some (rowsInOrder kept 0))])

/-- The memory and the signal of a kept row. -/
def rowDeclarations (s : RowStage) (kept tileWidth m : Nat) : Body :=
  Body.join
    [Body.memory s!"mem_{m}" tileWidth s.tilesPerRow,
     Body.reg (rowSignal kept m) tileWidth]

/-- The logic of a row stage, up to the signals of its column stage. -/
def body (s : RowStage) (elemWidth : Nat) : Body := do
  let kept ← s.buffers
  let tileWidth ← Word.mul (← Word.mul (← Word.mul s.tile0 s.tile1) s.carry) elemWidth
  let lastColumn ← Word.sub s.tilesPerRow 1
  let lastRow ← Word.sub s.rows 1
  let lastKept ← Word.sub kept 1
  let columnWidth := bitsNeededFor s.tilesPerRow
  let rowWidth := bitsNeededFor s.rows
  let turnWidth := bitsNeededFor kept
  Body.join
    [Body.join ((List.range kept).map (s.rowDeclarations kept tileWidth)),
     Body.reg "col" columnWidth,
     Body.reg "row" rowWidth,
     Body.reg "widx" turnWidth,
     Body.net "feed" 1 (.binary .ge (.ref "row") (.literal rowWidth kept)),
     Body.assign "col_in_valid" (.and (.ref "in_valid") (.ref "feed")),
     Body.assign "in_ready" (.or (.ref "col_in_ready") (.not (.ref "feed"))),
     Body.net "accept" 1 (.and (.ref "in_valid") (.ref "in_ready")),
     Body.net "row_end" 1 (.and (.ref "accept") (.hasValue "col" columnWidth lastColumn)),
     cyclicCounter "col" columnWidth lastColumn "accept",
     cyclicCounter "row" rowWidth lastRow "row_end",
     cyclicCounter "widx" turnWidth lastKept "row_end",
     rowWrite kept,
     rowRead kept,
     do Body.assign "col_in_value" (.concat (← s.sliceElements kept elemWidth))]

end RowStage

namespace LineBuffer

/-- The shape of the slices a row stage makes of tiles. -/
def sliceShape (elem : ElemType) (rows : RowStage) : Shape := .stream elem rows.sliceExtents

/-- The shape of the windows a column stage makes of slices. -/
def windowShape (elem : ElemType) (rows : RowStage) (columns : ColumnStage) : Shape :=
  .stream elem [columns.window, rows.window1, rows.carry]

/-- Define the column stage of a line buffer called `name`. Returns the name of
    its module. -/
def makeColumns (name : String) (parameters : Parameters) (elem : ElemType) (rows : RowStage)
    (columns : ColumnStage) : Making String := do
  let columnName := name ++ "_1D"
  let slicePorts ← Port.ofShape "in" (sliceShape elem rows) .input
  let windowPorts ← Port.ofShape "out" (windowShape elem rows columns) .output
  let body ← columns.body elem.bits
  Making.define columnName parameters [s!"Column stage of {name}"]
    (Port.common ++ slicePorts ++ windowPorts) body
  return columnName

/-- The row stage together with the instance of its column stage. -/
def rowBody (columnName : String) (elem : ElemType) (rows : RowStage) (columns : ColumnStage) :
    Body := do
  let slice ← (sliceShape elem rows).signals "in" .input
  let window ← (windowShape elem rows columns).signals "out" .output
  let connections :=
    commonConnections ++ slice.map (fun s => (s.name, .ref ("col_" ++ s.name)))
      ++ sameNames (window.map Signal.name)
  Body.join
    [Body.join (slice.map fun s => Body.wire ("col_" ++ s.name) s.width),
     rows.body elem.bits,
     Body.item (.submodule columnName "columns" connections)]

/-- Define the modules of a line buffer over an image and return the name of the
    one to instantiate. -/
def make (c : Component) (image : List Nat) : Making String := do
  let tile ← c.portShape "in"
  let window ← c.portShape "out"
  if tile.elem ≠ window.elem then
    malformed (.elementTypeChange c.instanceName tile.text window.text)
  let plan ← LineBufferPlan.ofShapes tile.extents window.extents image
  let name :=
    s!"LineBuffer_{tile.typeName}_to_{Shape.joined window.extents}_{Shape.joined image}"
  let parameters : Parameters := .lineBuffer tile.elem tile.extents window.extents image
  if ← Making.needs name parameters then
    let columns ← plan.columnStage
    let header := [s!"Line buffer from {tile.text} to {window.text} over [{listed image}]"]
    match ← plan.rowStage with
    | none =>
        let ports ← c.modulePorts
        let body ← columns.body tile.elem.bits
        Making.define name parameters header ports body
    | some rows =>
        let columnName ← makeColumns name parameters tile.elem rows columns
        let ports ← c.modulePorts
        let body ← rowBody columnName tile.elem rows columns
        Making.define name parameters header ports body
  return name

end LineBuffer

end StencilRtl
