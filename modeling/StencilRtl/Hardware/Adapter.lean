import StencilRtl.Geometry.Scan
import StencilRtl.Hardware.Counters
import StencilRtl.Hardware.Library

/-!
# Stream adapters

The hardware between a stream and its form on the external bus.

An adapter waits for its start, then passes the windows of one frame through a
register and is done. Counters follow the scan of the image to tell the last
window of the frame. An outward adapter marks that window for the bus and is
done when the bus has taken it; an inward adapter is done as soon as it has
taken it.

## Main definitions

* `AdapterSide.tag`: How the two sides are named.
* `Adapter.body`: The logic of an adapter.
* `Adapter.make`: The module of an adapter component.
-/

namespace StencilRtl

namespace AdapterSide

/-- The part of a module's name that tells the side. -/
def tag : AdapterSide → String
  | .inward => "IN"
  | .outward => "OUT"

/-- The word for a side. -/
def word : AdapterSide → String
  | .inward => "in"
  | .outward => "out"

/-- The port on the side of the accelerator. -/
def innerPort : AdapterSide → String
  | .inward => "data_out"
  | .outward => "data_in"

end AdapterSide

namespace Adapter

open Rtl

/-- The handshake signals of an adapter on either side of its register. -/
structure Handshake where
  inData : String
  inValid : String
  inReady : String
  outData : String
  outValid : String
  outReady : String

/-- The handshake signals of the two kinds of adapters. -/
def handshake : AdapterSide → Handshake
  | .inward =>
      ⟨"data_in_TDATA", "data_in_TVALID", "data_in_TREADY",
       "data_out_value", "data_out_valid", "data_out_ready"⟩
  | .outward =>
      ⟨"data_in_value", "data_in_valid", "data_in_ready",
       "data_out_TDATA", "data_out_TVALID", "data_out_TREADY"⟩

/-- The counters of the scan of a stream. -/
def counters (s : Scan) : Fallible (List ScanCounter) := do
  ScanCounter.ofDimensions 0 (s.widths.zip (s.steps.zip (← s.lastFrom)))

/-- A counter and the process that moves it. -/
def counter (move : ScanCounter × Rtl.Expr) : Body :=
  Body.join
    [move.1.declaration,
     Body.register move.1.register (.number 0) [(move.2, move.1.next)]]

/-- Whether a window can be taken. -/
def canTake (h : Handshake) : Rtl.Expr :=
  .and (.ref "started") (.or (.ref h.outReady) (.not (.ref "r_valid")))

/-- When the frame is done. -/
def done (side : AdapterSide) (h : Handshake) (last : Rtl.Expr) : Rtl.Expr :=
  match side with
  | .inward => .and (.ref "accept") last
  | .outward => .all (Rtl.Expr.refs ["r_valid", h.outReady, "r_last"])

/-- The declaration of the mark of the last window. -/
def lastDeclaration : AdapterSide → Body
  | .inward => Body.items []
  | .outward => Body.reg "r_last" 1

/-- The mark of the last window. -/
def lastMark (side : AdapterSide) (last : Rtl.Expr) : Body :=
  match side with
  | .inward => Body.items []
  | .outward => Body.register "r_last" (.number 0) [(.ref "accept", last)]

/-- The mark of the last window on the bus. -/
def lastOutput : AdapterSide → Body
  | .inward => Body.items []
  | .outward => Body.assign "data_out_TLAST" (.ref "r_last")

/-- The logic of an adapter for windows of some width. -/
def body (side : AdapterSide) (counters : List ScanCounter) (width : Nat) : Body :=
  let h := handshake side
  let last := ScanCounter.allAtLast counters
  Body.join
    [Body.reg "started" 1,
     Body.reg "r_value" width,
     Body.reg "r_valid" 1,
     lastDeclaration side,
     Body.net "accept" 1 (.and (canTake h) (.ref h.inValid)),
     Body.assign h.inReady (canTake h),
     Body.join ((ScanCounter.moves [.ref "accept"] counters).map counter),
     Body.net "done" 1 (done side h last),
     Body.assign donePort (.ref "done"),
     Body.register "started" (.number 0)
       [(.ref startPort, .bit true), (.ref "done", .bit false)],
     Body.enabled (.ref "r_value") (.ref "accept") (.ref h.inData),
     Body.register "r_valid" (.number 0)
       [(.ref "accept", .bit true), (.ref h.outReady, .bit false)],
     lastMark side last,
     Body.assign h.outData (.ref "r_value"),
     Body.assign h.outValid (.ref "r_valid"),
     lastOutput side]

/-- Define the module of an adapter and return its name. -/
def make (c : Component) (side : AdapterSide) : Making String := do
  let inner ← c.portShape side.innerPort
  let name := s!"IO_{side.tag}_{inner.typeName}_{Shape.joined inner.storeExtents}"
  let parameters : Parameters := .adapter side inner.elem inner.extents inner.storeExtents
  if ← Making.needs name parameters then
    let ports ← c.modulePorts
    let width ← inner.dataWidth
    let counters ← counters (← Scan.ofShape inner)
    let body ← body side counters width
    let header :=
      s!"Stream adapter ({side.word}) for {inner.text}, store extents [{listed inner.storeExtents}]"
    Making.define name parameters [header] ports body
  return name

end Adapter

end StencilRtl
