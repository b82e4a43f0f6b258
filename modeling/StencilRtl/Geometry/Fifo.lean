import StencilRtl.Width

/-!
# Queue geometry

The sizes of the state of a first-in first-out queue.

A queue of some depth has one slot more than it holds values, so that the two
pointers running around the slots tell a full queue from an empty one.

## Main definitions

* `FifoGeometry`: The sizes.
* `FifoGeometry.ofDepth`: The sizes for a depth.
* `FifoGeometry.advance`: The slot after a slot.
-/

namespace StencilRtl

/-- The sizes of a queue. -/
structure FifoGeometry where
  depth : Nat
  slots : Nat
  pointerWidth : Nat
  levelWidth : Nat
  deriving DecidableEq, Repr, Inhabited

namespace FifoGeometry

/-- The sizes of a queue of some depth, which is not zero. -/
def ofDepth (depth : Nat) : Fallible FifoGeometry := do
  if depth = 0 then malformed .queueDepth
  else
    let slots ← Word.add depth 1
    let levelWidth ← bitsToHold depth
    return ⟨depth, slots, bitsNeededFor slots, levelWidth⟩

/-- The slot after `pointer`; after the last one comes the first. -/
def advance (g : FifoGeometry) (pointer : Nat) : Fallible Nat :=
  if pointer = g.depth then .ok 0 else Word.add pointer 1

end FifoGeometry

end StencilRtl
