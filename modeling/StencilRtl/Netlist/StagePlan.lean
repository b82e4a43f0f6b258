import StencilRtl.Geometry.LoopControl
import StencilRtl.Kernel.Basic
import StencilRtl.Shape

/-!
# Stage plans

What a pipeline stage is built from.

A stage executes one loop nest. Its controller walks the loops, its datapath
computes the straight-line body of the innermost loop, and its output assembly
gathers the results of one window and offers the window as a stream.

## Main definitions

* `StreamPort`, `LocalStencil`, `Action`: Streams, buffers and steps of a stage.
* `StagePlan`: Everything needed to build a stage.
* `AssemblyPlan`: What the output assembly is built from.
* `StagePlan.validate`: What holds of every plan that can be built.
-/

namespace StencilRtl

/-- A stage's stream port and the stencil it is read into or written from. -/
structure StreamPort where
  port : String
  stencil : String
  shape : Shape
  deriving DecidableEq, Repr, Inhabited

/-- A stencil of a loop nest that no stream is read into or written from. -/
structure LocalStencil where
  name : String
  shape : Shape
  deriving DecidableEq, Repr, Inhabited

/-- One step of the body of the innermost loop. -/
inductive Action where
  /-- Store a value into an element of a stencil. -/
  | provide (stencil : String) (args : List Expr) (value : Expr)
  /-- Name an intermediate value. -/
  | letIn (name : String) (value : Expr)
  deriving DecidableEq, Repr, Inhabited

namespace Action

/-- Whether an action stores into a given stencil. -/
def writesTo (stencil : String) : Action → Bool
  | .provide written _ _ => written = stencil
  | .letIn _ _ => false

end Action

/-- What the output assembly of a stage is built from: the shape of its stream
    and the number of results it takes in one load. -/
structure AssemblyPlan where
  shape : Shape
  writes : Nat
  deriving DecidableEq, Repr, Inhabited

namespace AssemblyPlan

/-- The width of an element's index in a window. -/
def indexWidth (p : AssemblyPlan) : Fallible Nat := do
  return bitsNeededFor (← p.shape.elems)

/-- The name of the module. -/
def moduleName (p : AssemblyPlan) : String := s!"WrStream_{p.shape.typeName}_{p.writes}"

end AssemblyPlan

/-- Everything needed to build a pipeline stage. -/
structure StagePlan where
  producer : String
  scan : List LoopVar
  window : List LoopVar
  inputs : List StreamPort
  output : StreamPort
  /-- The condition under which a finished window is written. -/
  writeGuard : Option Expr
  params : List (String × Shape)
  stencils : List LocalStencil
  actions : List Action
  /-- Cycles between the last load and the last output. -/
  latency : Nat
  deriving DecidableEq, Repr, Inhabited

/-- The first item that already stands before itself. -/
def firstRepeated? (items : List String) : Option String :=
  go [] items
where
  /-- The first item that stands before itself or among `seen`. -/
  go (seen : List String) : List String → Option String
    | [] => none
    | item :: rest => if item ∈ seen then some item else go (item :: seen) rest

namespace StagePlan

/-- The loops of a stage. -/
def control (p : StagePlan) : LoopControl := ⟨p.scan, p.window, p.latency⟩

/-- All loop variables, the scan loops first. -/
def vars (p : StagePlan) : List LoopVar := p.scan ++ p.window

/-- The output assembly of a stage. -/
def writer (p : StagePlan) : AssemblyPlan :=
  ⟨p.output.shape, p.actions.countP (Action.writesTo p.output.stencil)⟩

/-- The name of the module. -/
def moduleName (p : StagePlan) : String := "FB_" ++ p.producer

/-- There are loops, they have iterations and different names, and the output is
    written. -/
def validate (p : StagePlan) : Fallible Unit :=
  if p.scan = [] then malformed (.stageWithoutLoops p.producer)
  else
    match p.vars.find? fun v => v.extent = 0 with
    | some v => unsupported (.emptyLoop v.name p.producer)
    | none =>
        match firstRepeated? (p.vars.map LoopVar.name) with
        | some name => malformed (.loopVariableTwice name p.producer)
        | none =>
            if p.writer.writes = 0 then
              unsupported (.outputNeverProvided p.producer p.output.stencil)
            else .ok ()

end StagePlan

end StencilRtl
