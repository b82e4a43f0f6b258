import StencilRtl.Netlist.Component
import StencilRtl.RegisterMap

/-!
# Netlists

A design: components, the ports and wires of the top module, and what is
connected to what.

Everything keeps the order in which it was added, because the order shows in
the generated modules. Names at the top level are declared once, whether they
are ports or wires, and so are the names of instances.

## Main definitions

* `Netlist`: A design.
* `Netlist.addComponent`, `Netlist.addPort`, `Netlist.addWire`,
  `Netlist.connect`: Building a design.
* `Netlist.endpoint`: The shape and direction of an endpoint.
* `Netlist.signalBase`: The common part of the names of an endpoint's signals.
-/

namespace StencilRtl

/-- A design. -/
structure Netlist where
  name : String
  components : List Component
  ports : List (String × Shape × Direction)
  wires : List (String × Shape)
  connections : List Connection
  registers : RegisterMap
  /-- The number of the slave interface added last. -/
  slave : Option Nat
  deriving Repr, Inhabited

namespace Netlist

/-- A design without parts. -/
def empty (name : String) : Netlist := ⟨name, [], [], [], [], .empty, none⟩

/-- The number of the component with a given instance name. -/
def find? (n : Netlist) (instanceName : String) : Option Nat :=
  n.components.findIdx? fun c => c.instanceName = instanceName

/-- Add a component. Returns the design and the number of the component. -/
def addComponent (n : Netlist) (c : Component) : Fallible (Netlist × Nat) :=
  if (n.find? c.instanceName).isSome then malformed (.instanceTwice c.instanceName)
  else
    let index := n.components.length
    let slave := if c.kind = .slaveInterface then some index else n.slave
    .ok ({ n with components := n.components ++ [c], slave }, index)

/-- The component with a given number. -/
def component (n : Netlist) (index : Nat) : Fallible Component :=
  match n.components[index]? with
  | some c => .ok c
  | none => giveWay .outOfRange

/-- Put a component in the place of the one with its number. -/
def setComponent (n : Netlist) (index : Nat) (c : Component) : Netlist :=
  { n with components := n.components.set index c }

/-- The number of the slave interface. -/
def slaveInterface (n : Netlist) : Fallible Nat :=
  match n.slave with
  | some index => .ok index
  | none => malformed .noSlaveInterface

/-- The shape of a wire. -/
def wire? (n : Netlist) (name : String) : Option Shape :=
  (n.wires.find? fun w => w.1 = name).map Prod.snd

/-- The shape and direction of one of the top module's ports. -/
def port? (n : Netlist) (name : String) : Option (Shape × Direction) :=
  (n.ports.find? fun p => p.1 = name).map Prod.snd

/-- Whether a name is declared at the top level. -/
def declares (n : Netlist) (name : String) : Bool :=
  (n.port? name).isSome || (n.wire? name).isSome

/-- Declare one of the top module's ports. -/
def addPort (n : Netlist) (name : String) (shape : Shape) (direction : Direction) :
    Fallible Netlist :=
  if n.declares name then malformed (.topNameTwice name)
  else .ok { n with ports := n.ports ++ [(name, shape, direction)] }

/-- Declare a wire of a valid shape. -/
def addWire (n : Netlist) (name : String) (shape : Shape) : Fallible Netlist := do
  shape.validate
  if n.declares name then malformed (.wireTwice name)
  else return { n with wires := n.wires ++ [(name, shape)] }

/-- Connect a target to its driver. -/
def connect (n : Netlist) (target : Endpoint) (source : Source) : Netlist :=
  { n with connections := n.connections ++ [⟨target, source⟩] }

/-- The shape of an endpoint and, unless it is a wire, its direction. -/
def endpoint (n : Netlist) : Endpoint → Fallible (Shape × Option Direction)
  | .top name =>
      match n.wire? name with
      | some shape => .ok (shape, none)
      | none =>
          match n.port? name with
          | some (shape, direction) => .ok (shape, some direction)
          | none => undefinedName name "wire"
  | .port index name => do
      let c ← n.component index
      match c.port? name with
      | some (shape, direction) => return (shape, some direction)
      | none => undefinedName name s!"port of `{c.instanceName}'"

/-- The common part of the names of an endpoint's signals in the top module. -/
def signalBase (n : Netlist) : Endpoint → Fallible String
  | .top name => .ok name
  | .port index name => do
      return (← n.component index).instanceName ++ "_" ++ name

/-- The number of connections an endpoint drives. -/
def consumersOf (n : Netlist) (e : Endpoint) : Nat :=
  n.connections.countP fun c => c.source = .endpoint e

/-- Whether an endpoint is driven. -/
def isDriven (n : Netlist) (e : Endpoint) : Bool :=
  n.connections.any fun c => c.target = e

end Netlist

end StencilRtl
