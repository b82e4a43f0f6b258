import StencilRtl.Hardware.Datapath
import StencilRtl.Hardware.LoopControl

/-!
# Pipeline stages

The hardware of one loop nest.

A stage holds three instances: the controller, which walks the loops, the
datapath, which computes the body, and the output assembly, which gathers the
results. The inputs are taken together, with the last load of a window, and the
controller sees the output drained when the output stream offers nothing.

## Main definitions

* `StagePlan.body`: The logic that ties the parts of a stage together.
* `StagePlan.make`: The modules of a stage component.
-/

namespace StencilRtl

namespace StagePlan

open Rtl

/-- The signals of the results and of their places. -/
def resultSignals (p : StagePlan) : List String :=
  (List.range p.writer.writes).flatMap fun k => [resultSignal k, indexSignal k]

/-- The declarations of the results and of their places. -/
def resultWires (p : StagePlan) : Body := do
  let indexWidth ← p.writer.indexWidth
  Body.join ((List.range p.writer.writes).map fun k =>
    Body.join
      [Body.wire (resultSignal k) p.output.shape.elem.bits,
       Body.wire (indexSignal k) indexWidth])

/-- The instance of the controller. -/
def controller (p : StagePlan) (moduleName : String) : Item :=
  .submodule moduleName "control"
    (commonConnections
      ++ sameNames [startPort, donePort, "in_valid", "space", "enable", "load", "last", "pop"]
      ++ [("drained", .not (.ref (p.output.port ++ "_valid")))]
      ++ sameNames (p.vars.map LoopVar.name))

/-- The instance of the datapath. -/
def datapath (p : StagePlan) (moduleName : String) : Item :=
  .submodule moduleName "datapath"
    (commonConnections
      ++ sameNames (p.vars.map LoopVar.name)
      ++ p.inputs.map (fun s => (s.stencil, .ref (s.port ++ "_value")))
      ++ [(p.output.stencil, .ref "acc")]
      ++ sameNames (p.params.map Prod.fst)
      ++ sameNames p.resultSignals
      ++ sameNames ["commit"])

/-- The instance of the output assembly. -/
def assembly (p : StagePlan) (moduleName : String) : Item :=
  .submodule moduleName "writer"
    (commonConnections
      ++ sameNames ["enable", "load", "last", "commit", "space"]
      ++ sameNames p.resultSignals
      ++ ["_value", "_valid", "_ready"].map (fun ending =>
          ("out" ++ ending, .ref (p.output.port ++ ending)))
      ++ [("acc_out", .ref "acc")])

/-- The logic of a stage. -/
def body (p : StagePlan) (controlName datapathName writerName : String) : Body :=
  Body.join
    [Body.join (p.vars.map fun v => do Body.wire v.name (← v.width)),
     Body.join (["enable", "load", "last", "pop", "space", "commit"].map fun w => Body.wire w 1),
     p.resultWires,
     do Body.wire "acc" (← p.output.shape.dataWidth),
     Body.net "in_valid" 1 (.all (p.inputs.map fun s => .ref (s.port ++ "_valid"))),
     Body.items [p.controller controlName, p.datapath datapathName, p.assembly writerName],
     Body.join (p.inputs.map fun s => Body.assign (s.port ++ "_ready") (.ref "pop"))]

/-- What a stage reads. -/
def readsText (p : StagePlan) : String :=
  if p.inputs = [] then "nothing" else String.intercalate ", " (p.inputs.map StreamPort.port)

/-- The comment above a stage. -/
def header (p : StagePlan) : List String :=
  [s!"Pipeline stage of {p.producer}", s!"  reads {p.readsText}", s!"  writes {p.output.port}"]

/-- Define the modules of a stage and return the name of the one to
    instantiate. -/
def make (c : Component) (p : StagePlan) : Making String := do
  p.validate
  if ← Making.needs p.moduleName (.stage p) then
    let controlName ← p.control.make
    let datapathName ← p.makeDatapath
    let writerName ← p.writer.make
    let ports ← c.modulePorts
    let body ← p.body controlName datapathName writerName
    Making.define p.moduleName (.stage p) p.header ports body
  return p.moduleName

end StagePlan

end StencilRtl
