import StencilRtl.Hardware.Adapter
import StencilRtl.Hardware.Dispatch
import StencilRtl.Hardware.LineBuffer
import StencilRtl.Hardware.Queue
import StencilRtl.Hardware.SlaveInterface
import StencilRtl.Hardware.Stage
import StencilRtl.Netlist.Check

/-!
# The top module

The module that instantiates the components of a design.

Instances are made kind by kind, in the order of the kinds' ranks. Every signal
of an instance becomes a wire named after the instance and the signal, and the
connections of the design become assignments between wires. Every input of an
instance and every output of the design has to be assigned.

## Main definitions

* `Netlist.makeComponent`: The module of a component.
* `Netlist.makeTop`: The top module.
-/

namespace StencilRtl

namespace Netlist

open Rtl

/-- Define the module of the component with a given number and return its name. -/
def makeComponent (n : Netlist) (index : Nat) : Making String := do
  let c ← n.component index
  match c.kind with
  | .slaveInterface => SlaveInterface.make c n.registers
  | .adapter side => Adapter.make c side
  | .queue depth => Queue.make c depth
  | .lineBuffer storeExtents => LineBuffer.make c storeExtents
  | .dispatch plan => plan.make c
  | .stage plan => plan.make c

/-- An instance in the top module: its items, and its inputs, which have to be
    assigned. -/
structure Placed where
  items : List Item
  sinks : List String

/-- The wire of a signal of an instance. -/
def instanceWire (c : Component) (s : Signal) : String := c.instanceName ++ "_" ++ s.name

/-- The signals of all ports of a component. -/
def componentSignals (c : Component) : Fallible (List Signal) := do
  let signals ← c.ports.mapM fun (name, shape, direction) => shape.signals name direction
  return signals.flatten

/-- Place the component with a given number. -/
def place (n : Netlist) (index : Nat) : Making Placed := do
  let c ← n.component index
  let moduleName ← n.makeComponent index
  let signals ← componentSignals c
  let wires ← Body.join (signals.map fun s => Body.wire (instanceWire c s) s.width)
  let connections :=
    commonConnections ++ signals.map fun s => (s.name, .ref (instanceWire c s))
  let sinks := (signals.filter fun s => s.direction = .input).map (instanceWire c)
  return ⟨wires ++ [.submodule moduleName c.instanceName connections], sinks⟩

/-- The numbers of the components, kind by kind. -/
def emissionOrder (n : Netlist) : List Nat :=
  (n.components.zipIdx.mergeSort fun a b => a.1.kind.rank ≤ b.1.kind.rank).map Prod.snd

/-- The signals of the ports of the top module. -/
def portSignals (n : Netlist) : Fallible (List Signal) := do
  let signals ← n.ports.mapM fun (name, shape, direction) => shape.signals name direction
  return signals.flatten

/-- The declarations of the wires of the top module. -/
def wireDeclarations (n : Netlist) : Body :=
  Body.join (n.wires.map fun (name, shape) => do
    Body.join ((← shape.signals name .input).map fun s => Body.wire s.name s.width))

/-- What stands on the right-hand side of an assignment. -/
def driverValue : Driver → Rtl.Expr
  | .signal name => .ref name
  | .constant value width => .literal width value

/-- The assignments, once everything that has to be assigned is. -/
def assignments (sinks : List String) (resolved : Assignments) : Fallible (List Item) :=
  match sinks.find? fun sink => !resolved.any fun a => a.1 = sink with
  | some sink => malformed (.undrivenSignal sink)
  | none => .ok (resolved.map fun (target, driver) => .assign (.ref target) (driverValue driver))

/-- Define the modules of all components and return the top module. -/
def makeTop (n : Netlist) : Making Rtl.Module := do
  n.validate
  let signals ← n.portSignals
  let declarations ← n.wireDeclarations
  let outputs := (signals.filter fun s => s.direction = .output).map Signal.name
  let placed ← n.emissionOrder.mapM n.place
  let (resolved, warnings) ← n.resolve
  Making.warn warnings
  let drivers ← assignments (outputs ++ placed.flatMap (·.sinks)) resolved
  return ⟨n.name, Port.common ++ signals.map Port.ofSignal,
    declarations ++ placed.flatMap (·.items) ++ drivers⟩

end Netlist

end StencilRtl
