import StencilRtl.Rtl.Module
import StencilRtl.Width

/-!
# Counters of a scan

Registers that hold the position of a window in its image.

There is one counter for each dimension. A counter moves by its step when a
window is taken and all counters before it return to zero; it returns to zero
itself from the positions whose next step would leave the image.

## Main definitions

* `ScanCounter`: One counter.
* `ScanCounter.atLast`, `ScanCounter.next`: When it returns and where it goes.
* `ScanCounter.moves`: What makes each counter of a scan move.
-/

namespace StencilRtl

/-- One counter of a scan. `lastFrom` is the least position from which it
    returns to zero. -/
structure ScanCounter where
  register : String
  width : Nat
  step : Nat
  stepWidth : Nat
  lastFrom : Nat
  deriving DecidableEq, Repr, Inhabited

namespace ScanCounter

open Rtl

/-- The counter with number `d`. The step is added in a width that holds it. -/
def ofDimension (d width step lastFrom : Nat) : Fallible ScanCounter := do
  return ⟨s!"ctr_{d}", width, step, max width (← bitsToHold step), lastFrom⟩

/-- The counters with the given widths, steps and last positions, numbered from
    `d` on. -/
def ofDimensions (d : Nat) : List (Nat × Nat × Nat) → Fallible (List ScanCounter)
  | [] => .ok []
  | (width, step, lastFrom) :: rest => do
      let counter ← ofDimension d width step lastFrom
      return counter :: (← ofDimensions (d + 1) rest)

/-- Whether the counter returns with the next step. -/
def atLast (c : ScanCounter) : Rtl.Expr :=
  .binary .ge (.ref c.register) (.literal c.width c.lastFrom)

/-- The position after a step. -/
def next (c : ScanCounter) : Rtl.Expr :=
  .mux c.atLast (.literal c.width 0)
    (.binary .add (.ref c.register) (.literal c.stepWidth c.step))

/-- The declaration of the counter. -/
def declaration (c : ScanCounter) : Body := Body.reg c.register c.width

/-- The counters with the conditions under which they move. `before` holds when
    the first one has to. -/
def moves (before : List Rtl.Expr) : List ScanCounter → List (ScanCounter × Rtl.Expr)
  | [] => []
  | c :: rest => (c, .all before) :: moves (before ++ [c.atLast]) rest

/-- Whether all counters return with the next step. -/
def allAtLast (counters : List ScanCounter) : Rtl.Expr := .all (counters.map atLast)

end ScanCounter

end StencilRtl
