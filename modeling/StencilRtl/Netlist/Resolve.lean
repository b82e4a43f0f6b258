import StencilRtl.Netlist.Basic

/-!
# Resolving connections

From connections between endpoints to assignments between signals.

Every endpoint is a bundle of flat signals. A connection drives the forward
signals of its target from those of its source, and the backward signals of its
source from those of its target. A constant drives the forward signals only. A
signal assigned again takes the place of the last assignment. A stream nobody
consumes gets its ready signal tied low, which is worth a warning.

## Main definitions

* `Driver`, `Warning`: Drivers of signals, and what may be wrong.
* `Assignments.put`: Assigning a signal.
* `Netlist.resolve`: The assignments of a design.
-/

namespace StencilRtl

/-- What drives a signal. -/
inductive Driver where
  | signal (name : String)
  | constant (value width : Nat)
  deriving DecidableEq, Repr, Inhabited

/-- Things that are probably not intended. -/
inductive Warning where
  /-- A stream is produced and never consumed. -/
  | noConsumer (stream : String)
  /-- A consumer's box cannot hold a single window. -/
  | boxTooSmall (consumer : String)
  deriving DecidableEq, Repr

namespace Warning

/-- The wording of a warning. -/
def text : Warning → String
  | .noConsumer stream => s!"stream `{stream}' has no consumer, tying ready low"
  | .boxTooSmall consumer => s!"dispatch consumer `{consumer}' is smaller than the window"

end Warning

/-- Signals and their drivers, in order of their last assignment. -/
abbrev Assignments := List (String × Driver)

namespace Assignments

/-- Assign a signal. It comes last, even if it was assigned before. -/
def put (a : Assignments) (signal : String) (driver : Driver) : Assignments :=
  a.filter (·.1 ≠ signal) ++ [(signal, driver)]

/-- Assign several signals in order. -/
def putAll (a : Assignments) (pairs : List (String × Driver)) : Assignments :=
  pairs.foldl (fun a (signal, driver) => a.put signal driver) a

end Assignments

namespace Netlist

/-- The signals of an endpoint. -/
def endpointSignals (n : Netlist) (e : Endpoint) : Fallible (List Signal) := do
  let (shape, _) ← n.endpoint e
  shape.signals (← n.signalBase e) .input

/-- The assignments a connection asks for. -/
def connectionAssignments (n : Netlist) (c : Connection) : Fallible Assignments := do
  let targets ← n.endpointSignals c.target
  match c.source with
  | .constant value =>
      return (targets.filter (!·.backward)).map fun s => (s.name, .constant value s.width)
  | .endpoint source => do
      let sources ← n.endpointSignals source
      return (targets.zip sources).map fun (t, s) =>
        if t.backward then (s.name, .signal t.name) else (t.name, .signal s.name)

/-- The names of the endpoints that drive something. -/
def consumedBases (n : Netlist) : Fallible (List String) := do
  return (← n.connections.mapM fun c =>
    match c.source with
    | .constant _ => pure []
    | .endpoint source => do return [← n.signalBase source]).flatten

/-- The streams nobody consumes. -/
def unconsumed (n : Netlist) : Fallible (List (String × Shape)) := do
  let consumed ← n.consumedBases
  return n.wires.filter fun (name, shape) => shape.isStream && name ∉ consumed

/-- The assignments that tie the ready signal of a stream low. -/
def tiedLow (wire : String × Shape) : Fallible Assignments := do
  let signals ← wire.2.signals wire.1 .input
  return (signals.filter (·.backward)).map fun s => (s.name, .constant 0 1)

/-- The assignments of a design, with a warning for each stream nobody
    consumes. -/
def resolve (n : Netlist) : Fallible (Assignments × List Warning) := do
  let driven := (← n.connections.mapM n.connectionAssignments).flatten
  let idle ← n.unconsumed
  let tied := (← idle.mapM tiedLow).flatten
  return (Assignments.putAll [] (driven ++ tied), idle.map fun (name, _) => .noConsumer name)

end Netlist

end StencilRtl
