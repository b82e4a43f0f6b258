import StencilRtl.Hardware.Library
import StencilRtl.Hardware.Lowering
import StencilRtl.Hardware.OutputAssembly

/-!
# Datapaths

The combinational hardware that computes the body of a stage's loops.

The inputs are the loop variables, the windows read from streams, the window
under construction and the parameters. Each store into the output becomes a
result with its place, in the order of the stores. A stencil of the loop nest
itself is a wire whose elements are driven by the last stores into them; stores
into it have to be at places known in advance. One more output tells whether a
finished window is to be written.

## Main definitions

* `StagePlan.scope`: What the expressions of a body can refer to.
* `StagePlan.lowerActions`: The logic of the steps of a body.
* `StagePlan.datapathBody`: The logic of a datapath.
* `StagePlan.makeDatapath`: The module of a datapath.
-/

namespace StencilRtl

/-- The last value stored into an element of a local stencil. -/
structure StoredElement where
  stencil : String
  flat : Nat
  value : Rtl.Expr
  deriving Repr, Inhabited

/-- The value last stored into an element. -/
def storedValue? (stored : List StoredElement) (stencil : String) (flat : Nat) :
    Option Rtl.Expr :=
  (stored.reverse.find? fun e => e.stencil = stencil && e.flat = flat).map (·.value)

namespace Lowering

open Rtl

/-- Declare the wires standing in for the conversions met so far. -/
def declareCasts : Lowering (List Item) := do
  let casts ← takeCasts
  Body.join (casts.map fun c => Body.net c.name c.width c.value)

end Lowering

namespace StagePlan

open Rtl

/-- The windows read from streams and the window under construction. -/
def windows (p : StagePlan) : List (String × Shape) :=
  (p.inputs ++ [p.output]).map fun s => (s.stencil, s.shape.asStencil)

/-- What the expressions of the body can refer to. -/
def scope (p : StagePlan) : Scope :=
  ⟨p.windows ++ p.params.filter (fun (_, shape) => shape.extents ≠ [])
      ++ p.stencils.map fun l => (l.name, l.shape),
    p.vars.map LoopVar.name⟩

/-- The input showing a loop variable. -/
def varInput (v : LoopVar) : Fallible Port := do
  return .input v.name (← v.width)

/-- The ports of a datapath. -/
def datapathPorts (p : StagePlan) : Fallible (List Port) := do
  let indexWidth ← p.writer.indexWidth
  let vars ← p.vars.mapM varInput
  let operands ← (p.windows ++ p.params).mapM fun (name, shape) => Port.ofShape name shape .input
  let results :=
    (List.range p.writer.writes).flatMap
      (AssemblyPlan.resultPorts indexWidth p.output.shape.elem.bits .output)
  return Port.common ++ vars ++ operands.flatten ++ results ++ [.output "commit" 1]

/-- The place of a result, as a number of some width if it is known in advance. -/
def placeIndex (indexWidth : Nat) : Place → Rtl.Expr
  | .fixed flat => .literal indexWidth flat
  | .computed flat => flat

/-- The result with number `k`. -/
def result (k : Nat) (value index : Rtl.Expr) : List Item :=
  [.assign (.ref (resultSignal k)) value, .assign (.ref (indexSignal k)) index]

/-- The logic of the steps of a body and the elements they store into local
    stencils. The next result has number `k`. -/
def lowerActions (p : StagePlan) (indexWidth k : Nat) :
    List Action → Lowering (List Item × List StoredElement)
  | [] => return ([], [])
  | .letIn name value :: rest => do
      let rhs ← p.scope.lower value
      let casts ← Lowering.declareCasts
      let wire ← Body.net name value.type.width rhs
      let (items, stored) ← p.lowerActions indexWidth k rest
      return (casts ++ wire ++ items, stored)
  | .provide stencil args value :: rest => do
      let rhs ← p.scope.lower value
      let location ← p.scope.locate stencil args (p.scope.coordinates args)
      let casts ← Lowering.declareCasts
      if stencil = p.output.stencil then
        let own := result k rhs (placeIndex indexWidth location.place)
        let (items, stored) ← p.lowerActions indexWidth (k + 1) rest
        return (casts ++ own ++ items, stored)
      else if p.stencils.any fun l => l.name = stencil then
        match location.place with
        | .computed _ => unsupported (.computedLocalWrite stencil)
        | .fixed flat => do
            let (items, stored) ← p.lowerActions indexWidth k rest
            return (casts ++ items, ⟨stencil, flat, rhs⟩ :: stored)
      else unsupported (.foreignWrite stencil)

/-- The wires of the local stencils. -/
def localDeclarations (p : StagePlan) : Body :=
  Body.join (p.stencils.map fun l => do Body.wire l.name (← l.shape.dataWidth))

/-- The drivers of the elements of a local stencil. An element without a store is
    zero. -/
def localDrivers (stored : List StoredElement) (l : LocalStencil) : Body := do
  let bits := l.shape.elem.bits
  (List.range (← l.shape.elems)).mapM fun flat => do
    let low ← Word.mul flat bits
    let value := (storedValue? stored l.name flat).getD (.literal bits 0)
    return .assign (.part (.ref l.name) low bits) value

/-- The condition under which a finished window is written. -/
def commitValue (p : StagePlan) : Lowering Rtl.Expr :=
  match p.writeGuard with
  | some guard => p.scope.lower guard
  | none => return .bit true

/-- The logic of a datapath. -/
def datapathBody (p : StagePlan) : Lowering (List Item) := do
  let declarations ← p.localDeclarations
  let (items, stored) ← p.lowerActions (← p.writer.indexWidth) 0 p.actions
  let drivers ← Body.join (p.stencils.map (localDrivers stored))
  let commit ← p.commitValue
  let casts ← Lowering.declareCasts
  return declarations ++ items ++ drivers ++ casts ++ [.assign (.ref "commit") commit]

/-- The name of the module of the datapath. -/
def datapathName (p : StagePlan) : String := "Compute_" ++ p.producer

/-- Define the module of the datapath and return its name. -/
def makeDatapath (p : StagePlan) : Making String := do
  let ports ← p.datapathPorts
  let body ← (p.datapathBody.run.run .initial).1
  Making.define p.datapathName (.stage p)
    [s!"Datapath of {p.producer}: {p.actions.length} action(s)"] ports body
  return p.datapathName

end StagePlan

end StencilRtl
