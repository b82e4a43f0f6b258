import StencilRtl.Hardware.Counters
import StencilRtl.Hardware.Library

/-!
# Dispatch routers

The hardware that hands the windows of a stream to several consumers.

Counters follow the position of the window. For each consumer a comparison with
the bounds of its box tells whether it gets the window. A window is taken when
every consumer that gets it is ready, and handed to all of them in that cycle.
A consumer whose box cannot hold a window never gets one, which is worth a
warning when the router is built.

## Main definitions

* `DispatchPlan.body`: The logic of a router.
* `DispatchPlan.make`: The module of a router component.
-/

namespace StencilRtl

namespace DispatchPlan

open Rtl

/-- The widths of the counters. -/
def widths (p : DispatchPlan) : List Nat := p.storeExtents.map bitsNeededFor

/-- The counters of a router. -/
def counters (p : DispatchPlan) : Fallible (List ScanCounter) := do
  ScanCounter.ofDimensions 0 (p.widths.zip (p.steps.zip (← p.lastFrom)))

/-- The comparisons of one counter with the bounds of a box: the counter, the
    size of a window, the offset and the extent of the box. -/
def boxBounds : ScanCounter × Nat × Nat × Nat → Fallible (List Rtl.Expr)
  | (c, size, offset, extent) => do
      let high ← Word.sub (← Word.add offset extent) size
      return [.binary .ge (.ref c.register) (.literal c.width offset),
        .binary .le (.ref c.register) (.literal c.width high)]

/-- Whether the window at the counters lies in a box. -/
def boxCondition (p : DispatchPlan) (counters : List ScanCounter) (box : DispatchBox) :
    Fallible Rtl.Expr := do
  if p.fits box then
    let bounds ← (counters.zip (p.sizes.zip (box.offsets.zip box.extents))).mapM boxBounds
    return .all bounds.flatten
  else return .bit false

/-- The signal saying that the consumer with number `c` gets the window. -/
def inBoxSignal (c : Nat) : String := s!"inbox_{c}"

/-- Whether the consumer with number `c` lets the window pass. -/
def passes (c : Nat) : Rtl.Expr :=
  .or (.and (.ref (inBoxSignal c)) (.ref s!"out_{c}_ready")) (.not (.ref (inBoxSignal c)))

/-- The numbers of the consumers. -/
def consumerNumbers (p : DispatchPlan) : List Nat := List.range p.consumers.length

/-- The outputs of the consumer with number `c`. -/
def consumerOutputs (c : Nat) : Body :=
  Body.join
    [Body.assign s!"out_{c}_value" (.ref "in_value"),
     Body.assign s!"out_{c}_valid" (.and (.ref "accept") (.ref (inBoxSignal c)))]

/-- The process that moves a counter. -/
def counterUpdate (move : ScanCounter × Rtl.Expr) : Body :=
  Body.register move.1.register (.number 0)
    [(.ref startPort, .number 0), (move.2, move.1.next)]

/-- The logic of a router. -/
def body (p : DispatchPlan) (counters : List ScanCounter) : Body :=
  Body.join
    [Body.join (counters.map ScanCounter.declaration),
     Body.join (p.consumers.mapIdx fun c box => do
       Body.net (inBoxSignal c) 1 (← p.boxCondition counters box)),
     Body.assign "in_ready" (.all (p.consumerNumbers.map passes)),
     Body.net "accept" 1 (.and (.ref "in_valid") (.ref "in_ready")),
     Body.join (p.consumerNumbers.map consumerOutputs),
     Body.join ((ScanCounter.moves [.ref "accept"] counters).map counterUpdate),
     Body.assign donePort (.and (.ref "accept") (ScanCounter.allAtLast counters))]

/-- The comment above a router. -/
def header (p : DispatchPlan) (shape : Shape) : List String :=
  (s!"Dispatch of {shape.text}: size [{listed p.sizes}] step [{listed p.steps}] "
      ++ s!"store [{listed p.storeExtents}]")
    :: p.consumers.mapIdx fun c box =>
        s!"  out_{c} -> {box.name} (depth {box.depth}) offsets [{listed box.offsets}] "
          ++ s!"extents [{listed box.extents}]"

/-- What may be wrong with a router. -/
def warnings (p : DispatchPlan) : List Warning :=
  (p.consumers.filter fun box => !p.fits box).map fun box => .boxTooSmall box.name

/-- Define the module of a router and return its name. -/
def make (c : Component) (p : DispatchPlan) : Making String := do
  let shape ← c.portShape "in"
  p.check
  let parameters : Parameters := .dispatch shape.elem shape.extents p
  let number ← Making.numberOf parameters
  let name := s!"Dispatch_{shape.typeName}_#{number}"
  if ← Making.needs name parameters then
    let ports ← c.modulePorts
    let body ← p.body (← p.counters)
    Making.warn p.warnings
    Making.define name parameters (p.header shape) ports body
  return name

end DispatchPlan

end StencilRtl
