import StencilRtl.Geometry.Dispatch
import StencilRtl.Netlist.StagePlan

/-!
# Components

The hardware blocks a design is put together from.

A component is an instance of one of six kinds of blocks, with typed ports.
Blocks that run from a start to an end take part in the start and done network:
they are born with a start input and a done output.

## Main definitions

* `AdapterSide`, `ComponentKind`: The kinds of blocks.
* `Component`: An instance with its ports.
* `Component.addInput`, `Component.addOutput`: Declaring ports.
* `Endpoint`, `Source`, `Connection`: What is connected to what.
-/

namespace StencilRtl

/-- Which side of the bus a stream adapter sits on. -/
inductive AdapterSide where
  /-- From the external bus into the accelerator. -/
  | inward
  /-- From the accelerator onto the external bus. -/
  | outward
  deriving DecidableEq, Repr, Inhabited

/-- The kinds of blocks. -/
inductive ComponentKind where
  /-- The register file of the configuration bus. -/
  | slaveInterface
  /-- An adapter between a stream and its external form. -/
  | adapter (side : AdapterSide)
  /-- A first-in first-out queue. -/
  | queue (depth : Nat)
  | lineBuffer (storeExtents : List Nat)
  | dispatch (plan : DispatchPlan)
  | stage (plan : StagePlan)
  deriving DecidableEq, Repr, Inhabited

namespace ComponentKind

/-- The place of a kind in the order in which modules are emitted. -/
def rank : ComponentKind → Nat
  | .slaveInterface => 0
  | .adapter .inward => 1
  | .adapter .outward => 2
  | .queue _ => 3
  | .lineBuffer _ => 4
  | .dispatch _ => 5
  | .stage _ => 6

/-- Whether a block takes part in the start and done network. -/
def isStateful : ComponentKind → Bool
  | .adapter _ => true
  | .dispatch _ => true
  | .stage _ => true
  | .slaveInterface => false
  | .queue _ => false
  | .lineBuffer _ => false

/-- Whether a block registers its output, so that no signal passes through it
    within a cycle. -/
def isQueue : ComponentKind → Bool
  | .queue _ => true
  | _ => false

end ComponentKind

/-- The input that starts a block. -/
def startPort : String := "start_in"

/-- The output on which a block reports that it is done. -/
def donePort : String := "done_out"

/-- An instance of a block, with its ports in declared order. -/
structure Component where
  instanceName : String
  kind : ComponentKind
  inputs : List (String × Shape)
  outputs : List (String × Shape)
  deriving DecidableEq, Repr, Inhabited

namespace Component

/-- An instance with the ports that every block of its kind has. -/
def ofKind (instanceName : String) (kind : ComponentKind) : Component :=
  if kind.isStateful then ⟨instanceName, kind, [(startPort, .bit)], [(donePort, .bit)]⟩
  else ⟨instanceName, kind, [], []⟩

/-- Whether this name is declared for a port. -/
def declares (c : Component) (name : String) : Bool :=
  (c.inputs ++ c.outputs).any fun p => p.1 = name

/-- Declare an input. -/
def addInput (c : Component) (name : String) (shape : Shape) : Fallible Component :=
  if c.declares name then malformed (.portTwice name c.instanceName)
  else .ok { c with inputs := c.inputs ++ [(name, shape)] }

/-- Declare an output. -/
def addOutput (c : Component) (name : String) (shape : Shape) : Fallible Component :=
  if c.declares name then malformed (.portTwice name c.instanceName)
  else .ok { c with outputs := c.outputs ++ [(name, shape)] }

/-- Declare several inputs. -/
def addInputs (c : Component) (ports : List (String × Shape)) : Fallible Component :=
  ports.foldlM (fun c (name, shape) => c.addInput name shape) c

/-- All ports with their directions, the inputs first. -/
def ports (c : Component) : List (String × Shape × Direction) :=
  c.inputs.map (fun (name, shape) => (name, shape, .input))
    ++ c.outputs.map fun (name, shape) => (name, shape, .output)

/-- The shape and direction of a port. -/
def port? (c : Component) (name : String) : Option (Shape × Direction) :=
  (c.ports.find? fun p => p.1 = name).map Prod.snd

/-- The shape of a port that has to be there. -/
def portShape (c : Component) (name : String) : Fallible Shape :=
  match c.port? name with
  | some (shape, _) => .ok shape
  | none => undefinedName name s!"port of `{c.instanceName}'"

end Component

/-- A port or wire of the top module, or a component's port, the component being
    given by its number. -/
inductive Endpoint where
  | top (name : String)
  | port (component : Nat) (name : String)
  deriving DecidableEq, Repr, Inhabited

/-- What drives an endpoint. A constant drives every forward signal. -/
inductive Source where
  | endpoint (e : Endpoint)
  | constant (value : Nat)
  deriving DecidableEq, Repr, Inhabited

/-- A target and its driver. Of a stream the ready signal flows back. -/
structure Connection where
  target : Endpoint
  source : Source
  deriving DecidableEq, Repr, Inhabited

end StencilRtl
