import StencilRtl.Geometry.Scan

/-!
# Dispatch geometry

How a router hands the windows of one stream to several consumers.

The windows of the stream visit an image in steps that need not be the size of
a window. Each consumer is interested in a box of the image, and a window is
handed to every consumer whose box contains it.

## Main definitions

* `DispatchBox`, `DispatchPlan`: Consumers and the geometry of a router.
* `DispatchPlan.check`: Whether a router can be built.
* `DispatchPlan.inBox`: Whether a consumer gets the window at a position.
* `DispatchPlan.step`: One move of the position.
-/

namespace StencilRtl

/-- A consumer, the depth of its queue and its box. -/
structure DispatchBox where
  name : String
  depth : Nat
  offsets : List Nat
  extents : List Nat
  deriving DecidableEq, Repr, Inhabited

/-- The geometry of a router. -/
structure DispatchPlan where
  sizes : List Nat
  steps : List Nat
  storeExtents : List Nat
  consumers : List DispatchBox
  deriving DecidableEq, Repr, Inhabited

namespace DispatchPlan

/-- Size, step and store extent of each dimension. -/
def dimensions (p : DispatchPlan) : List (Nat × Nat × Nat) :=
  p.sizes.zip (p.steps.zip p.storeExtents)

/-- Every step moves and every window fits its image, from dimension `d` on. -/
def checkDimensions : Nat → List (Nat × Nat × Nat) → Fallible Unit
  | _, [] => .ok ()
  | d, (size, step, store) :: rest =>
      if step = 0 ∨ store < size then unsupported (.dispatchDimension d size step store)
      else checkDimensions (d + 1) rest

/-- Every box has as many dimensions as the stream. -/
def checkBoxes (rank : Nat) : List DispatchBox → Fallible Unit
  | [] => .ok ()
  | box :: rest =>
      if box.offsets.length ≠ rank ∨ box.extents.length ≠ rank then
        malformed (.dispatchBoxRank box.name)
      else checkBoxes rank rest

/-- Whether a router of this geometry can be built. -/
def check (p : DispatchPlan) : Fallible Unit := do
  let rank := p.sizes.length
  if p.steps.length ≠ rank ∨ p.storeExtents.length ≠ rank then malformed .dispatchRanks
  else
    checkDimensions 0 p.dimensions
    checkBoxes rank p.consumers

/-- The largest position in each dimension. -/
def maxes (p : DispatchPlan) : Fallible (List Nat) :=
  (p.storeExtents.zip p.sizes).mapM fun (store, size) => Word.sub store size

/-- For each dimension the least position from which the next step returns to
    zero. -/
def lastFrom (p : DispatchPlan) : Fallible (List Nat) := do
  (p.steps.zip (← p.maxes)).mapM fun (step, max) => returnsFrom step max

/-- One move after a transfer. Returns whether the walk begins anew. -/
def step (p : DispatchPlan) (counters : List Nat) : Fallible (Bool × List Nat) := do
  stepCounters (p.steps.zip (← p.maxes)) counters

/-- Whether the window at a position lies in a box, dimension by dimension: its
    size, the offset and the extent of the box. -/
def within : List (Nat × Nat × Nat) → List Nat → Fallible Bool
  | _, [] => .ok true
  | [], _ :: _ => giveWay .outOfRange
  | (size, offset, extent) :: dims, counter :: counters => do
      if counter < offset then return false
      else
        let windowPast ← Word.add counter size
        let boxPast ← Word.add offset extent
        if windowPast ≤ boxPast then within dims counters else return false

/-- Whether a consumer gets the window at a position. -/
def inBox (p : DispatchPlan) (box : DispatchBox) (counters : List Nat) : Fallible Bool :=
  within (p.sizes.zip (box.offsets.zip box.extents)) counters

/-- Whether a box is at least as large as a window in every dimension. -/
def fits (p : DispatchPlan) (box : DispatchBox) : Bool :=
  (p.sizes.zip box.extents).all fun (size, extent) => size ≤ extent

end DispatchPlan

end StencilRtl
