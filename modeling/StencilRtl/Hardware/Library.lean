import StencilRtl.Netlist.Resolve
import StencilRtl.Rtl.Printer

/-!
# The library of modules

The modules a design is made of, each under a name of its own.

A module is built from structural parameters, and two requests with the same
parameters share one definition. Most names spell the parameters out. Where they
are too many the modules of a family are numbered in the order in which they are
defined, so that equal parameters have equal numbers. A name that is requested
with other parameters than those of its definition is an error.

Definitions are collected in a `Workshop`, together with the warnings given on
the way. What was defined before a failure stays defined.

## Main definitions

* `Parameters`: What a module is built from.
* `Definition`, `Library`: Modules and their collection.
* `Library.needs`, `Library.define`: Asking for and adding a definition.
* `Library.numberOf`: The number of a module of a numbered family.
* `Making`: Computations that define modules.
-/

namespace StencilRtl

/-- What a module is built from. Equal parameters mean equal modules. -/
inductive Parameters where
  /-- Parameters known by a number only. -/
  | token (number : Nat)
  | slaveInterface (registers : List RegisterEntry) (dones : List String)
  | adapter (side : AdapterSide) (elem : ElemType) (extents storeExtents : List Nat)
  | queue (elem : ElemType) (extents : List Nat) (depth : Nat)
  | lineBuffer (elem : ElemType) (tile window image : List Nat)
  | dispatch (elem : ElemType) (extents : List Nat) (plan : DispatchPlan)
  | loopControl (control : LoopControl)
  | assembly (elem : ElemType) (extents : List Nat) (writes : Nat)
  | stage (plan : StagePlan)
  deriving DecidableEq, Repr, Inhabited

namespace Parameters

/-- Whether both belong to the same numbered family. -/
def sameFamily : Parameters → Parameters → Bool
  | .dispatch _ _ _, .dispatch _ _ _ => true
  | .loopControl _, .loopControl _ => true
  | _, _ => false

end Parameters

/-- A module with the lines of the comment above it. -/
structure Definition where
  name : String
  parameters : Parameters
  header : List String
  content : Rtl.Module
  deriving Repr, Inhabited

/-- Definitions in the order in which they were added. -/
structure Library where
  definitions : List Definition
  deriving Repr

namespace Library

/-- The library without modules. -/
def empty : Library := ⟨[]⟩

instance : Inhabited Library := ⟨empty⟩

/-- The definition of a name. -/
def find? (l : Library) (name : String) : Option Definition :=
  l.definitions.find? fun d => d.name = name

/-- The names of all definitions. -/
def names (l : Library) : List String := l.definitions.map (·.name)

/-- The number of definitions. -/
def size (l : Library) : Nat := l.definitions.length

/-- Whether a name still needs a definition. It is an error if the name stands
    for other parameters. -/
def needs (l : Library) (name : String) (parameters : Parameters) : Fallible Bool :=
  match l.find? name with
  | none => .ok true
  | some d =>
      if d.parameters = parameters then .ok false else malformed (.moduleParameters name)

/-- Add a definition, unless it is there already. -/
def define (l : Library) (d : Definition) : Fallible Library := do
  if ← l.needs d.name d.parameters then return ⟨l.definitions ++ [d]⟩ else return l

/-- The number of a module among its numbered family: that of the definition
    with the same parameters, or else the next one. -/
def numberOf (l : Library) (parameters : Parameters) : Nat :=
  (l.definitions.filter fun d => d.parameters.sameFamily parameters).findIdx fun d =>
    d.parameters = parameters

end Library

/-- The modules defined so far and the warnings given so far. -/
structure Workshop where
  library : Library
  warnings : List Warning

namespace Workshop

/-- Nothing defined yet. -/
def empty : Workshop := ⟨.empty, []⟩

end Workshop

/-- A computation that defines modules. The workshop survives a failure. -/
abbrev Making := ExceptT Failure (StateM Workshop)

namespace Making

/-- Whether a name still needs a definition. -/
def needs (name : String) (parameters : Parameters) : Making Bool := do
  (← get).library.needs name parameters

/-- The number of a module of a numbered family. -/
def numberOf (parameters : Parameters) : Making Nat := do
  return (← get).library.numberOf parameters

/-- Add a definition. -/
def define (name : String) (parameters : Parameters) (header : List String)
    (ports : List Rtl.Port) (body : List Rtl.Item) : Making Unit := do
  let library ← (← get).library.define ⟨name, parameters, header, ⟨name, ports, body⟩⟩
  modify fun w => { w with library }

/-- Give warnings. -/
def warn (warnings : List Warning) : Making Unit :=
  modify fun w => { w with warnings := w.warnings ++ warnings }

end Making

namespace Component

/-- The ports of the module implementing a component: the clock, the reset and
    the signals of its own ports. -/
def modulePorts (c : Component) : Fallible (List Rtl.Port) := do
  let own ← c.ports.mapM fun (name, shape, direction) => Rtl.Port.ofShape name shape direction
  return Rtl.Port.common ++ own.flatten

end Component

end StencilRtl
