import StencilRtl.Shape
import StencilRtl.Width

/-!
# Scans of an image

How a stream walks over an image window by window.

Counters hold the position of the current window, one for each dimension, and
move in steps of a window. Dimension 0 moves first; a counter that cannot move
without leaving the image returns to zero and lets the next one move. When the
last one returns the scan begins anew.

## Main definitions

* `stepCounters`: One move of a vector of counters.
* `Scan`: The steps and bounds of a scan.
* `Scan.step`: One move of the scan's counters.
* `Scan.transfers`: How many windows a scan visits.
* `Scan.lastFrom`: From where on a counter returns.
-/

namespace StencilRtl

/-- Move counters with the given steps and largest positions. Returns whether
    all of them returned to zero, and the counters after the move. -/
def stepCounters : List (Nat × Nat) → List Nat → Fallible (Bool × List Nat)
  | _, [] => .ok (true, [])
  | [], _ :: _ => giveWay .outOfRange
  | (step, max) :: dims, counter :: counters => do
      let next ← Word.add counter step
      if max < next then
        let (wrapped, rest) ← stepCounters dims counters
        return (wrapped, 0 :: rest)
      else return (false, next :: counters)

/-- The least position from which a step of `step` passes `max`. -/
def returnsFrom (step max : Nat) : Fallible Nat := do
  return (← Word.add max 1) - step

/-- The steps, the largest positions and the counter widths of a scan. -/
structure Scan where
  steps : List Nat
  maxes : List Nat
  widths : List Nat
  deriving DecidableEq, Repr, Inhabited

namespace Scan

/-- The scan of a stream over its image. -/
def ofShape (s : Shape) : Fallible Scan := do
  let maxes ← (s.storeExtents.zip s.extents).mapM fun (store, extent) => Word.sub store extent
  return ⟨s.extents, maxes, s.storeExtents.map bitsNeededFor⟩

/-- One move of the counters. -/
def step (s : Scan) (counters : List Nat) : Fallible (Bool × List Nat) :=
  stepCounters (s.steps.zip s.maxes) counters

/-- For each counter the least position from which it returns to zero. -/
def lastFrom (s : Scan) : Fallible (List Nat) :=
  (s.steps.zip s.maxes).mapM fun (step, max) => returnsFrom step max

/-- The number of windows a scan visits. -/
def transfers (s : Scan) : Fallible Nat :=
  (s.maxes.zip s.steps).foldlM (fun count (max, step) => do
    Word.mul count (← Word.add (← Word.div max step) 1)) 1

end Scan

end StencilRtl
