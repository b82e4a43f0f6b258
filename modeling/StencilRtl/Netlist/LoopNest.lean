import StencilRtl.Kernel.StreamCall
import StencilRtl.Netlist.StagePlan

/-!
# Loop nests

A loop nest on its way to a pipeline stage.

The loops that realize buffers walk from one output window to the next, and so
does the outermost loop. The loops inside them walk one window. What the nest
does is gathered while it is read from front to back: the streams it reads, the
one stream it writes together with the conditions on the write, the stencils it
realizes, and the steps of its body.

## Main definitions

* `NestOutput`: The write that ends a nest.
* `LoopNest`: A nest under construction.
* `LoopNest.enterLoop`, `LoopNest.realize`, `LoopNest.provide`, `LoopNest.bind`,
  `LoopNest.read`, `LoopNest.write`: What can be met in a nest.
* `LoopNest.finish`: The stage of a nest.
-/

namespace StencilRtl

/-- Cycles between the last load and the last output of a stage. -/
def outputLatency : Nat := 1

/-- The write that ends a nest. A write to a kernel output names its port in
    `external` and may tell the shape of the image. -/
structure NestOutput where
  port : StreamPort
  storeExtents : Option (List Nat)
  external : String
  deriving DecidableEq, Repr, Inhabited

/-- A loop nest under construction. -/
structure LoopNest where
  producer : String
  /-- The names free in the nest, as the kernel writes them. -/
  free : List String
  scan : List LoopVar
  window : List LoopVar
  inputs : List StreamPort
  output : Option NestOutput
  writeGuard : Option Expr
  /-- The conditions around the current statement, outermost first. -/
  guards : List Expr
  realized : List LocalStencil
  actions : List Action
  /-- The names bound in the body. -/
  bound : List String
  deriving Repr, Inhabited

namespace LoopNest

/-- A nest of which nothing has been read. -/
def empty (producer : String) (free : List String) : LoopNest :=
  ⟨producer, free, [], [], [], none, none, [], [], [], []⟩

/-- A constant bound of a loop. -/
def constantBound (name bound : String) (e : Expr) : Fallible Int :=
  match e.constant? with
  | some value => .ok value
  | none => unsupported (.loopBoundNotConstant name bound)

/-- Enter a loop over `body`. -/
def enterLoop (n : LoopNest) (name : String) (min extent : Expr) (body : Stmt) :
    Fallible LoopNest := do
  let min ← constantBound name "minimum" min
  let extent ← constantBound name "extent" extent
  if min < 0 ∨ extent ≤ 0 then unsupported (.loopRange name min (← SignedWord.add min extent))
  else
    let var : LoopVar := ⟨printName name, min.toNat, extent.toNat⟩
    if n.scan = [] || body.containsRealize then
      if n.window = [] then return { n with scan := n.scan ++ [var] }
      else unsupported (.bufferInWindowLoop name n.producer)
    else return { n with window := n.window ++ [var] }

/-- Enter the scope of a condition. -/
def pushGuard (n : LoopNest) (condition : Expr) : LoopNest :=
  { n with guards := n.guards ++ [condition] }

/-- Leave the scope of the innermost condition. -/
def popGuard (n : LoopNest) : LoopNest := { n with guards := n.guards.dropLast }

/-- The extent of a stencil in one dimension. -/
def stencilExtent (name : String) (b : Interval) : Fallible Nat :=
  if b.min ≠ 0 ∨ b.extent ≤ 0 then do
    let past ← SignedWord.add b.min.toInt b.extent.toInt
    unsupported (.stencilRange name b.min.toInt past)
  else .ok b.extent.toInt.toNat

/-- The shape of a realized stencil. -/
def stencilShape (name : String) (types : List ScalarType) (bounds : List Interval) :
    Fallible Shape :=
  match types with
  | [type] => do
      let extents ← bounds.mapM (stencilExtent name)
      return .stencil (← ElemType.ofScalar type) extents
  | _ => unsupported (.stencilTypes name types.length)

/-- Realize a stencil. -/
def realize (n : LoopNest) (name : String) (types : List ScalarType) (bounds : List Interval) :
    Fallible LoopNest := do
  let shape ← stencilShape name types bounds
  let signal := printName name
  if n.realized.any fun l => l.name = signal then unsupported (.realizedTwice signal n.producer)
  else return { n with realized := n.realized ++ [⟨signal, shape⟩] }

/-- Store values into a buffer. -/
def provide (n : LoopNest) (name : String) (values args : List Expr) : Fallible LoopNest :=
  if !isStencilName name then unsupported (.notAStencil name)
  else
    match values with
    | [value] => .ok { n with actions := n.actions ++ [.provide (printName name) args value] }
    | _ => unsupported (.valueCount name values.length)

/-- Bind a name to a value. -/
def bind (n : LoopNest) (name : String) (value : Expr) : Fallible LoopNest :=
  let signal := printName name
  if signal ∈ n.bound then unsupported (.boundTwice signal n.producer)
  else
    .ok { n with bound := n.bound ++ [signal], actions := n.actions ++ [.letIn signal value] }

/-- Read a stream of some shape. A stream can be read again into the same
    stencil. -/
def read (n : LoopNest) (call : ReadStream) (shape : Shape) : Fallible LoopNest :=
  match n.inputs.find? fun p => p.port = call.stream with
  | some before =>
      if before.stencil = call.stencil then .ok n
      else unsupported (.readTwice call.stream before.stencil call.stencil)
  | none => .ok { n with inputs := n.inputs ++ [⟨call.stream, call.stencil, shape⟩] }

/-- The conjunction of some conditions, if there are any. -/
def conjunction : List Expr → Option Expr
  | [] => none
  | first :: rest => some (rest.foldl (fun a b => .binary .and a b) first)

/-- Write a stream of some shape under the conditions around the write. -/
def write (n : LoopNest) (call : WriteStream) (shape : Shape) : Fallible LoopNest :=
  match n.output with
  | some before => unsupported (.writesTwice n.producer before.port.port call.stream)
  | none =>
      .ok { n with
        writeGuard := conjunction n.guards
        output :=
          some ⟨⟨call.stream, call.stencil, shape⟩, call.storeExtents, call.port⟩ }

/-- The realized stencils that no stream is read into or written from. -/
def locals (n : LoopNest) (output : NestOutput) : List LocalStencil :=
  n.realized.filter fun l =>
    l.name ≠ output.port.stencil && n.inputs.all fun i => i.stencil ≠ l.name

/-- The stage of a nest that is given some parameters, and its output. -/
def finish (n : LoopNest) (params : List (String × Shape)) :
    Fallible (StagePlan × NestOutput) := do
  match n.output with
  | none => unsupported (.nestWithoutWrite n.producer)
  | some output =>
      let plan : StagePlan :=
        ⟨n.producer, n.scan, n.window, n.inputs, output.port, n.writeGuard, params,
          n.locals output, n.actions, outputLatency⟩
      plan.validate
      return (plan, output)

end LoopNest

end StencilRtl
