import StencilRtl.Hardware.Library

/-!
# Loop controllers

The hardware that walks the loops of a pipeline stage.

A counter holds the value of each loop variable. The window counters move with
each load, the scan counters with the last load of a window, and the last
variable of either nest moves fastest. Controllers have too many parameters for
a name and are numbered.

## Main definitions

* `LoopControl.body`: The logic of a controller.
* `LoopControl.moduleName`: The name of its module in a library.
* `LoopControl.make`: The module of a controller.
-/

namespace StencilRtl

open Rtl

namespace LoopPhase

/-- Whether the controller is in a phase. -/
def active (p : LoopPhase) : Rtl.Expr := .hasValue "state" width p.code

/-- The number of a phase as a literal. -/
def literal (p : LoopPhase) : Rtl.Expr := .literal width p.code

end LoopPhase

/-- The counter of a loop variable, with its bounds. -/
structure LoopCounter where
  register : String
  width : Nat
  first : Nat
  last : Nat
  deriving DecidableEq, Repr, Inhabited

namespace LoopVar

/-- The counter of a variable. -/
def counter (v : LoopVar) : Fallible LoopCounter := do
  return ⟨v.register, ← v.width, v.min, ← v.max⟩

/-- The output of a variable. -/
def output (v : LoopVar) : Fallible Port := do
  return .output v.name (← v.width)

/-- The values of a variable. -/
def rangeText (v : LoopVar) : Fallible String := do
  let max ← v.max
  return s!"{v.name}=[{v.min}, {max}]"

end LoopVar

namespace LoopCounter

/-- Whether the variable has its last value. -/
def atLast (c : LoopCounter) : Rtl.Expr := .hasValue c.register c.width c.last

/-- The first value of the variable. -/
def initial (c : LoopCounter) : Rtl.Expr := .literal c.width c.first

/-- The process that moves a counter whenever `move` holds. It is set back by the
    start. -/
def update (c : LoopCounter) (move : Rtl.Expr) : Body :=
  Body.register c.register c.initial
    [(.ref startPort, c.initial),
     (move, .mux c.atLast c.initial (.plus c.register c.width 1))]

/-- The processes of a nest of counters. A counter moves when `advance` holds and
    all counters inside it are at their last values. -/
def nest (advance : Rtl.Expr) : List LoopCounter → List Body
  | [] => []
  | c :: inner => c.update (.all (advance :: inner.map atLast)) :: nest advance inner

/-- Whether all variables have their last values. -/
def allAtLast (counters : List LoopCounter) : Rtl.Expr := .all (counters.map atLast)

end LoopCounter

namespace LoopControl

/-- The inputs of a controller. -/
def inputNames : List String := [startPort, "in_valid", "space", "drained"]

/-- The outputs of a controller beside the loop variables. -/
def outputNames : List String := [donePort, "enable", "load", "last", "pop"]

/-- The ports of a controller. -/
def ports (c : LoopControl) : Fallible (List Port) := do
  return Port.common ++ inputNames.map (fun name => .input name 1)
    ++ outputNames.map (fun name => .output name 1) ++ (← c.vars.mapM LoopVar.output)

/-- The register of a variable and the output showing it. -/
def shown (v : LoopVar) : Body := do
  Body.join [Body.reg v.register (← v.width), Body.assign v.name (.ref v.register)]

/-- The register counting the cycles after the last load. -/
def flushUpdate (width : Nat) : Body :=
  Body.register "flush" (.literal width 0)
    [(.ref startPort, .literal width 0),
     (.and (LoopPhase.active .flush) (.not (.ref "flush_done")), .plus "flush" width 1)]

/-- The register holding the phase. -/
def phaseUpdate : Body :=
  Body.register "state" (LoopPhase.literal .idle)
    [(.and (LoopPhase.active .idle) (.ref startPort), LoopPhase.literal .first),
     (.and (.ref "step0") (.not (.ref "last")), LoopPhase.literal .rest),
     (.and (.ref "last") (.ref "scan_done"), LoopPhase.literal .flush),
     (.ref "last", LoopPhase.literal .first),
     (.ref donePort, LoopPhase.literal .idle)]

/-- The logic of a controller. -/
def body (c : LoopControl) : Body := do
  let flushWidth ← bitsToHold c.latency
  let scan ← c.scan.mapM LoopVar.counter
  let window ← c.window.mapM LoopVar.counter
  Body.join
    [Body.join (c.vars.map shown),
     Body.reg "state" LoopPhase.width,
     Body.reg "flush" flushWidth,
     Body.net "step0" 1 (.all [LoopPhase.active .first, .ref "in_valid", .ref "space"]),
     Body.net "step1" 1 (.and (LoopPhase.active .rest) (.ref "space")),
     Body.assign "load" (.or (.ref "step0") (.ref "step1")),
     Body.assign "enable" (.or (LoopPhase.active .first) (LoopPhase.active .rest)),
     Body.join (LoopCounter.nest (.ref "load") window),
     Body.net "window_done" 1 (LoopCounter.allAtLast window),
     Body.assign "last" (.and (.ref "load") (.ref "window_done")),
     Body.assign "pop" (.ref "last"),
     Body.join (LoopCounter.nest (.ref "last") scan),
     Body.net "scan_done" 1 (LoopCounter.allAtLast scan),
     Body.net "flush_done" 1 (.binary .ge (.ref "flush") (.literal flushWidth c.latency)),
     Body.assign donePort
       (.all [LoopPhase.active .flush, .ref "flush_done", .ref "drained"]),
     flushUpdate flushWidth,
     phaseUpdate]

/-- The values of some variables. -/
def rangesText (vars : List LoopVar) : Fallible String := do
  return String.intercalate " " (← vars.mapM LoopVar.rangeText)

/-- The comment above a controller. -/
def header (c : LoopControl) : Fallible (List String) := do
  let scan ← rangesText c.scan
  let window ← rangesText c.window
  return [s!"Loop control: scan {scan}", s!"  window {window}",
    s!"  flush latency {c.latency}"]

/-- The name of the module of a controller in a library. -/
def moduleName (c : LoopControl) (l : Library) : String :=
  s!"ForControl_#{l.numberOf (.loopControl c)}"

/-- Define the module of a controller and return its name. -/
def make (c : LoopControl) : Making String := do
  let name := c.moduleName (← get).library
  if ← Making.needs name (.loopControl c) then
    let ports ← c.ports
    let body ← c.body
    Making.define name (.loopControl c) (← c.header) ports body
  return name

end LoopControl

end StencilRtl
