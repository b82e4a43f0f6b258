import StencilRtl.Hardware.Library

/-!
# Output assemblies

The hardware that gathers the results of a pipeline stage.

With each load the datapath gives some results, each with the place in the window
it belongs to. They are merged in order into a register that holds the window
under construction, which the datapath can read back. With the last load of a
window, if it is to be written at all, the window is copied to a second register
and offered on the output stream.

## Main definitions

* `AssemblyPlan.body`: The logic of an output assembly.
* `AssemblyPlan.make`: The module of an output assembly.
-/

namespace StencilRtl

/-- The signal of the result with number `k`. -/
def resultSignal (k : Nat) : String := s!"result_{k}"

/-- The signal of the place of the result with number `k`. -/
def indexSignal (k : Nat) : String := s!"index_{k}"

namespace AssemblyPlan

open Rtl

/-- The signals of the result with number `k` and of its place, with a direction. -/
def resultPorts (indexWidth bits : Nat) (direction : Direction) (k : Nat) : List Port :=
  [⟨resultSignal k, bits, direction⟩, ⟨indexSignal k, indexWidth, direction⟩]

/-- The ports of an output assembly. -/
def ports (p : AssemblyPlan) : Fallible (List Port) := do
  let indexWidth ← p.indexWidth
  let out ← Port.ofShape "out" p.shape .output
  return Port.common ++ ["enable", "load", "last", "commit"].map (fun name => .input name 1)
    ++ (List.range p.writes).flatMap (resultPorts indexWidth p.shape.elem.bits .input)
    ++ out ++ [.output "space" 1, .output "acc_out" (← p.shape.dataWidth)]

/-- The result with number `k` put into its place in the window. -/
def merge (p : AssemblyPlan) (k : Nat) : Rtl.Stmt :=
  .set (.field (.ref "acc_next") (.ref (indexSignal k)) p.shape.elem.bits)
    (.ref (resultSignal k))

/-- The window under construction after the results of a load. -/
def merged (p : AssemblyPlan) : Body :=
  Body.item (.process .combinational
    [.set (.ref "acc_next") (.ref "acc"),
     .when (.ref "write") ((List.range p.writes).map p.merge)])

/-- The logic of an output assembly. -/
def body (p : AssemblyPlan) : Body := do
  let width ← p.shape.dataWidth
  Body.join
    [Body.reg "acc" width,
     Body.reg "acc_next" width,
     Body.reg "r_value" width,
     Body.reg "r_valid" 1,
     Body.net "write" 1 (.and (.ref "enable") (.ref "load")),
     p.merged,
     Body.enabled (.ref "acc") (.ref "write") (.ref "acc_next"),
     Body.net "capture" 1 (.all (Rtl.Expr.refs ["write", "last", "commit"])),
     Body.enabled (.ref "r_value") (.ref "capture") (.ref "acc_next"),
     Body.register "r_valid" (.number 0)
       [(.ref "capture", .number 1), (.ref "out_ready", .number 0)],
     Body.assign "acc_out" (.ref "acc"),
     Body.assign "out_value" (.ref "r_value"),
     Body.assign "out_valid" (.ref "r_valid"),
     Body.assign "space" (.or (.not (.ref "r_valid")) (.ref "out_ready"))]

/-- What the module is built from. -/
def parameters (p : AssemblyPlan) : Parameters :=
  .assembly p.shape.elem p.shape.extents p.writes

/-- Define the module of an output assembly and return its name. -/
def make (p : AssemblyPlan) : Making String := do
  if !p.shape.isStream then malformed (.assemblyOfNonStream p.shape.text)
  if ← Making.needs p.moduleName p.parameters then
    let ports ← p.ports
    let body ← p.body
    Making.define p.moduleName p.parameters
      [s!"Output assembly of {p.shape.text}, {p.writes} result(s) per load"] ports body
  return p.moduleName

end AssemblyPlan

end StencilRtl
