import StencilRtl.Netlist.Basic

/-!
# Checking a netlist

What has to hold of a finished design.

Registers do not overlap. Every connection leads from something that drives to
something that can be driven, and both sides carry the same. Every wire has a
producer, every stream at most one consumer, and every component's ports are
connected. Finally the handshakes must not form a loop within one clock cycle:
every cycle of stream connections passes through a queue, which registers its
output.

Whether a directed graph has a cycle is decided by taking away, again and
again, the edges that leave a node nothing leads to. What remains, if anything,
consists of edges whose start is the end of another one, so following them
backwards never ends.

## Main definitions

* `supported`, `cyclicCore`: The edges left when none can be taken away.
* `Netlist.checkConnection`: What holds of every connection.
* `Netlist.checkAcyclic`: Whether every cycle passes through a queue.
* `Netlist.validate`: All checks.
-/

namespace StencilRtl

/-- The edges whose start is the end of some edge. -/
def supported {α : Type} [DecidableEq α] (edges : List (α × α)) : List (α × α) :=
  edges.filter fun e => edges.any fun before => before.2 = e.1

/-- The edges that remain when those leaving a node nothing leads to are taken
    away until there are no more. -/
def cyclicCore {α : Type} [DecidableEq α] (edges : List (α × α)) : List (α × α) :=
  if _h : (supported edges).length < edges.length then cyclicCore (supported edges) else edges
termination_by edges.length

namespace Netlist

/-- Whether an endpoint with this direction can be driven. -/
def canBeDriven : Endpoint → Option Direction → Bool
  | .top _, direction => direction ≠ some .input
  | .port _ _, direction => direction = some .input

/-- Whether an endpoint with this direction drives something. -/
def canDrive : Endpoint → Option Direction → Bool
  | .top _, direction => direction ≠ some .output
  | .port _ _, direction => direction = some .output

/-- Whether two shapes carry the same. Widths are compared only if the
    containers agree. -/
def carrySame (a b : Shape) : Fallible Bool := do
  if a.isStream ≠ b.isStream then return false
  else if a.isStream && a.kind ≠ b.kind then return false
  else return decide ((← a.dataWidth) = (← b.dataWidth))

/-- A connection leads from a driver to something that can be driven and carries
    the same. -/
def checkConnection (n : Netlist) (c : Connection) : Fallible Unit := do
  let (targetShape, targetDirection) ← n.endpoint c.target
  if !canBeDriven c.target targetDirection then
    malformed (.notDrivable (← n.signalBase c.target))
  else
    match c.source with
    | .constant _ => return ()
    | .endpoint source => do
        let (sourceShape, sourceDirection) ← n.endpoint source
        if !canDrive source sourceDirection then
          malformed (.notADriver (← n.signalBase source))
        else if ← carrySame targetShape sourceShape then return ()
        else
          malformed (.mismatchedConnection (← n.signalBase c.target) (← n.signalBase source)
            targetShape.text sourceShape.text)

/-- A wire has a producer, and a stream at most one consumer. -/
def checkWire (n : Netlist) (wire : String × Shape) : Fallible Unit :=
  let (name, shape) := wire
  if !n.isDriven (.top name) then malformed (.wireWithoutProducer name)
  else if shape.isStream && 1 < n.consumersOf (.top name) then
    malformed (.streamFanOut name (n.consumersOf (.top name)))
  else .ok ()

/-- Whether a component's port is connected as its direction asks. Outputs
    without a handshake may be left open. -/
def isConnected (n : Netlist) (index : Nat) (port : String × Shape × Direction) : Bool :=
  let (name, shape, direction) := port
  match direction with
  | .input => n.isDriven (.port index name)
  | .output => !shape.isStream || 0 < n.consumersOf (.port index name)

/-- Every component's ports are connected. -/
def checkComponent (n : Netlist) (component : Component × Nat) : Fallible Unit :=
  let (c, index) := component
  match c.ports.find? fun port => !n.isConnected index port with
  | some (name, _) => malformed (.portUnconnected name c.instanceName)
  | none => .ok ()

/-- A node of the stream graph: a name of the top level or a whole component. -/
inductive FlowNode where
  | top (name : String)
  | component (index : Nat)
  deriving DecidableEq, Repr

/-- The node an endpoint belongs to. Queues are no nodes, since nothing passes
    through them within a cycle. -/
def flowNode (n : Netlist) : Endpoint → Fallible (Option FlowNode)
  | .top name => .ok (some (.top name))
  | .port index _ => do
      let c ← n.component index
      return if c.kind.isQueue then none else some (.component index)

/-- The edge a connection contributes to the stream graph. -/
def flowEdge (n : Netlist) (c : Connection) : Fallible (List (FlowNode × FlowNode)) :=
  match c.source with
  | .constant _ => .ok []
  | .endpoint source =>
      match n.endpoint c.target with
      | .error (.fault fault) => giveWay fault
      | .error (.error _) => .ok []
      | .ok (shape, _) =>
          if shape.isStream then do
            match ← n.flowNode source, ← n.flowNode c.target with
            | some start, some finish => return [(start, finish)]
            | _, _ => return []
          else .ok []

/-- Every cycle of stream connections passes through a queue. -/
def checkAcyclic (n : Netlist) : Fallible Unit := do
  let edges := (← n.connections.mapM n.flowEdge).flatten
  if cyclicCore edges = [] then return () else malformed .combinationalCycle

/-- All checks. -/
def validate (n : Netlist) : Fallible Unit := do
  n.registers.validate
  n.connections.forM n.checkConnection
  n.wires.forM n.checkWire
  n.components.zipIdx.forM n.checkComponent
  n.checkAcyclic

end Netlist

end StencilRtl
