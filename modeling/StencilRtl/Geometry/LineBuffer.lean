import StencilRtl.Width

/-!
# Line-buffer geometry

How a line buffer turns small tiles into overlapping windows.

Tiles of an image arrive in row-major order. A buffer keeps enough of them to
assemble, for every tile, the window that ends in it. Two stages suffice: the
*row stage* keeps whole rows of tiles in memories and assembles slices as tall
as a window, and the *column stage* keeps a few tiles or slices and assembles
windows. A dimension that a window spans completely is folded into the next
one, and a trailing dimension passed whole is carried along unchanged; what
remains has one or two dimensions.

## Main definitions

* `LineBufferPlan`: The shapes after folding and carrying.
* `LineBufferPlan.ofShapes`: The plan for a tile, a window and an image.
* `ColumnStage`, `RowStage`: The geometry of the stages.
* `ColumnStage.source`, `RowStage.source`: Where each element comes from.
-/

namespace StencilRtl

/-- Tiles of `tile` columns in, windows of `window` columns out. `height` rows,
    times the carried elements, ride along in every tile. -/
structure ColumnStage where
  tile : Nat
  window : Nat
  tilesPerRow : Nat
  height : Nat
  deriving DecidableEq, Repr, Inhabited

namespace ColumnStage

/-- The number of tiles kept. -/
def buffers (s : ColumnStage) : Fallible Nat := do
  Word.sub (← Word.div s.window s.tile) 1

/-- Where the element in column `j` and row `r` of a window comes from: the tile,
    kept ones first, and the element inside it. -/
def source (s : ColumnStage) (j r : Nat) : Fallible (Nat × Nat) := do
  let tile ← Word.div j s.tile
  let column ← Word.mod j s.tile
  return (tile, ← Word.add column (← Word.mul s.tile r))

/-- Where that element lies in the window. -/
def outIndex (s : ColumnStage) (j r : Nat) : Fallible Nat := do
  Word.add j (← Word.mul s.window r)

end ColumnStage

/-- Tiles of `tile0` by `tile1` in, slices of `tile0` by `window1` out. -/
structure RowStage where
  tile0 : Nat
  tile1 : Nat
  window1 : Nat
  tilesPerRow : Nat
  rows : Nat
  carry : Nat
  deriving DecidableEq, Repr, Inhabited

namespace RowStage

/-- The number of rows of tiles kept. -/
def buffers (s : RowStage) : Fallible Nat := do
  Word.sub (← Word.div s.window1 s.tile1) 1

/-- Where the element at `i`, `j`, `k` of a slice comes from: the row, kept ones
    first and oldest first, and the element inside its tile. -/
def source (s : RowStage) (i j k : Nat) : Fallible (Nat × Nat) := do
  let row ← Word.div j s.tile1
  let inner ← Word.mod j s.tile1
  let plane ← Word.add inner (← Word.mul s.tile1 k)
  return (row, ← Word.add i (← Word.mul s.tile0 plane))

/-- Where that element lies in the slice. -/
def outIndex (s : RowStage) (i j k : Nat) : Fallible Nat := do
  let plane ← Word.add j (← Word.mul s.window1 k)
  Word.add i (← Word.mul s.tile0 plane)

/-- The shape of a slice. -/
def sliceExtents (s : RowStage) : List Nat := [s.tile0, s.window1, s.carry]

end RowStage

/-- A dimension of a line buffer: tile, window and image. -/
structure LineBufferDimension where
  tile : Nat
  window : Nat
  image : Nat
  deriving DecidableEq, Repr, Inhabited

namespace LineBufferDimension

/-- Whether a tile, a window and the image are all the same here. -/
def isWhole (d : LineBufferDimension) : Bool := d.tile = d.window && d.window = d.image

end LineBufferDimension

/-- What remains of the shapes after folding and carrying. There are one or two
    dimensions, and `carry` elements ride along. -/
structure LineBufferPlan where
  first : LineBufferDimension
  second : Option LineBufferDimension
  carry : Nat
  deriving DecidableEq, Repr, Inhabited

namespace LineBufferPlan

/-- The dimensions of a plan. -/
def dimensions (p : LineBufferPlan) : List LineBufferDimension := p.first :: p.second.toList

/-- The tile of a plan. -/
def tile (p : LineBufferPlan) : List Nat := p.dimensions.map (·.tile)

/-- The window of a plan. -/
def window (p : LineBufferPlan) : List Nat := p.dimensions.map (·.window)

/-- The image of a plan. -/
def image (p : LineBufferPlan) : List Nat := p.dimensions.map (·.image)

/-- Fold leading dimensions that are passed whole into the next one. -/
def folded (d : LineBufferDimension) :
    List LineBufferDimension → Fallible (LineBufferDimension × List LineBufferDimension)
  | [] => .ok (d, [])
  | next :: rest => do
      if d.isWhole then
        let tile ← Word.mul next.tile d.tile
        let window ← Word.mul next.window d.window
        let image ← Word.mul next.image d.image
        folded ⟨tile, window, image⟩ rest
      else return (d, next :: rest)

/-- The window is made of whole tiles, the image too, and the window fits. Holds
    for the dimensions from number `d` on. -/
def checkDimensions : Nat → List LineBufferDimension → Fallible Unit
  | _, [] => .ok ()
  | d, dim :: rest => do
      let unfit : Fallible Unit :=
        unsupported (.lineBufferDimension d dim.window dim.image dim.tile)
      if (← Word.mod dim.window dim.tile) ≠ 0 then unfit
      else if (← Word.mod dim.image dim.tile) ≠ 0 then unfit
      else if dim.image < dim.window then unfit
      else checkDimensions (d + 1) rest

/-- The plan for folded dimensions: a third one has to be passed whole, and a
    second one without overlap is carried. -/
def carried (tile window image : List Nat) (first : LineBufferDimension) :
    List LineBufferDimension → Fallible LineBufferPlan
  | [] => .ok ⟨first, none, 1⟩
  | [second] => carrySecond second 1
  | [second, third] =>
      if third.isWhole then carrySecond second third.tile
      else unsupported (.lineBufferVolume tile window image)
  | _ => unsupported (.lineBufferRank tile.length)
where
  /-- Carry the second dimension along if tiles already span the window. -/
  carrySecond (second : LineBufferDimension) (carry : Nat) : Fallible LineBufferPlan := do
    if second.tile = second.window then
      return ⟨first, none, ← Word.mul carry second.tile⟩
    else return ⟨first, some second, carry⟩

/-- The dimensions given by three shapes of one rank. -/
def dimensionsOf (tile window image : List Nat) : List LineBufferDimension :=
  (tile.zip (window.zip image)).map fun (t, w, l) => ⟨t, w, l⟩

/-- The plan for a tile, a window and an image. -/
def ofShapes (tile window image : List Nat) : Fallible LineBufferPlan := do
  if tile.length ≠ window.length ∨ tile.length ≠ image.length then
    malformed (.lineBufferRanks tile window image)
  else if 3 < tile.length then unsupported (.lineBufferRank tile.length)
  else
    match dimensionsOf tile window image with
    | [] => unsupported (.lineBufferRank 0)
    | d :: rest => do
        let (first, rest) ← folded d rest
        let plan ← carried tile window image first rest
        checkDimensions 0 plan.dimensions
        return plan

/-- The row stage, if two dimensions remain. -/
def rowStage (p : LineBufferPlan) : Fallible (Option RowStage) :=
  match p.second with
  | none => .ok none
  | some second => do
      let tilesPerRow ← Word.div p.first.image p.first.tile
      let rows ← Word.div second.image second.tile
      return some ⟨p.first.tile, second.tile, second.window, tilesPerRow, rows, p.carry⟩

/-- The column stage. -/
def columnStage (p : LineBufferPlan) : Fallible ColumnStage := do
  let height ←
    match ← p.rowStage with
    | some rows => Word.mul rows.window1 rows.carry
    | none => pure p.carry
  let tilesPerRow ← Word.div p.first.image p.first.tile
  return ⟨p.first.tile, p.first.window, tilesPerRow, height⟩

end LineBufferPlan

end StencilRtl
