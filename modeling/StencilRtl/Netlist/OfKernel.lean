import StencilRtl.Hardware.SlaveInterface
import StencilRtl.Kernel.FreeNames
import StencilRtl.Netlist.Check
import StencilRtl.Netlist.LoopNest

/-!
# The netlist of a kernel

From the body of a kernel to a design.

The body is read once from front to back. A stream becomes a wire of the top
module. Whatever drives such a wire does so through a queue, so a wire is driven
by a queue or is another name of a wire that is. An outermost loop becomes a
pipeline stage, named after the stream whose producer it stands in. The arguments
of the kernel become ports with adapters, or registers of the slave interface.
Every block that runs from a start to an end is attached to the slave interface
when it is added.

## Main definitions

* `Construction`, `Constructing`: What is remembered while a body is read.
* `Construction.statement`: Reading a statement.
* `Netlist.ofKernel`: The design of a kernel.
-/

namespace StencilRtl

/-- The instance of the slave interface. -/
def slaveInstance : String := "SlaveIf"

/-- The output on which the slave interface starts all blocks. -/
def startOutput : String := "start"

/-- The wire of a buffer. -/
def wireName (buffer : String) : String := "wire_" ++ buffer

/-- What is remembered while the body of a kernel is read. -/
structure Construction where
  netlist : Netlist
  /-- The number of the slave interface. -/
  slave : Nat
  /-- The innermost producer of a stream around the current statement. -/
  producer : Option String
  /-- The loop nest around the current statement. -/
  nest : Option LoopNest
  /-- The outputs of the kernel that are still to be written. -/
  outputs : List (String × Shape)

/-- A computation that builds a design. -/
abbrev Constructing := StateT Construction Fallible

namespace Construction

/-- Change the design. -/
def update (change : Netlist → Netlist) : Constructing Unit :=
  modify fun c => { c with netlist := change c.netlist }

/-- Change the design, which may fail. -/
def tryUpdate (change : Netlist → Fallible Netlist) : Constructing Unit := do
  let netlist ← change (← get).netlist
  modify fun c => { c with netlist }

/-- Connect a target to its driver. -/
def connect (target source : Endpoint) : Constructing Unit :=
  update fun n => n.connect target (.endpoint source)

/-- Declare a wire. -/
def addWire (name : String) (shape : Shape) : Constructing Unit :=
  tryUpdate fun n => n.addWire name shape

/-- Declare one of the top module's ports. -/
def addPort (name : String) (shape : Shape) (direction : Direction) : Constructing Unit :=
  tryUpdate fun n => n.addPort name shape direction

/-- Add a component and return its number. -/
def addComponent (component : Component) : Constructing Nat := do
  let (netlist, index) ← (← get).netlist.addComponent component
  modify fun c => { c with netlist }
  return index

/-- Change the slave interface. -/
def updateSlave (change : Component → Fallible Component) : Constructing Unit := do
  let slave := (← get).slave
  tryUpdate fun n => do
    let component ← change (← n.component slave)
    return n.setComponent slave component

/-- One of the slave interface's ports. -/
def slavePort (name : String) : Constructing Endpoint := do
  return .port (← get).slave name

/-- Add a component that runs from a start to an end, and attach it to the slave
    interface. Returns its number. -/
def addStateful (component : Component) : Constructing Nat := do
  let done := component.instanceName ++ doneEnding
  let index ← addComponent component
  updateSlave fun slave => slave.addInput done .bit
  connect (.port index startPort) (← slavePort startOutput)
  connect (← slavePort done) (.port index donePort)
  return index

/-- Drive the wire of a stream through a queue. The wire is declared unless it is
    there already. -/
def addQueued (stream : String) (shape : Shape) (source : Endpoint) : Constructing Unit := do
  let wire := wireName stream
  if ((← get).netlist.wire? wire).isNone then addWire wire shape
  let queue := Component.ofKind ("FIFO_" ++ stream) (.queue (max shape.fifoDepth 1))
  let queue ← queue.addInput "in" shape
  let queue ← queue.addOutput "out" shape
  let index ← addComponent queue
  connect (.port index "in") source
  connect (.top wire) (.port index "out")

/-- The shape of a stream that has a wire. -/
def streamShape (stream : String) : Constructing Shape := do
  match ((← get).netlist.wire? (wireName stream)).filter Shape.isStream with
  | some shape => return shape
  | none => undefinedName stream "stream"

/-- Add a scalar or stencil argument, which the slave interface holds. -/
def addParameter (arg : Argument) (shape : Shape) : Constructing Unit := do
  if shape.isStream then unsupported (.streamParameter arg.name shape.text)
  else
    let name := printName arg.name
    tryUpdate fun n => do
      let (registers, _) ← n.registers.allocate name shape
      return { n with registers }
    updateSlave fun slave => slave.addOutput name shape
    addWire (wireName name) shape
    connect (.top (wireName name)) (← slavePort name)

/-- Add an input stream with its adapter. -/
def addInputStream (arg : Argument) (shape : Shape) : Constructing Unit := do
  let name := printName arg.name
  let external := printName (rootName arg.name)
  let inner := shape.withKind .stream
  let adapter := Component.ofKind ("IO_" ++ name) (.adapter .inward)
  let adapter ← adapter.addInput "data_in" shape
  let adapter ← adapter.addOutput "data_out" inner
  let index ← addStateful adapter
  addPort external shape .input
  connect (.port index "data_in") (.top external)
  addQueued name inner (.port index "data_out")

/-- Add an output stream. Its adapter comes with the write that feeds it. -/
def addOutputStream (arg : Argument) (shape : Shape) : Constructing Unit := do
  let name := printName arg.name
  modify fun c => { c with outputs := c.outputs ++ [(name, shape)] }
  addWire (wireName name) (shape.withKind .stream)

/-- Add an argument of the kernel. -/
def addArgument (arg : Argument) : Constructing Unit := do
  let shape ← Shape.ofStencilType arg.stencilType
  if !arg.isStream then addParameter arg shape
  else if shape.kind ≠ .busStream then unsupported (.notBusStream arg.name shape.text)
  else if arg.isOutput then addOutputStream arg shape
  else addInputStream arg shape

/-- Add a line buffer. -/
def lineBuffer (call : LineBufferCall) : Constructing Unit := do
  let input ← streamShape call.input
  let output ← streamShape call.output
  if call.storeExtents.length ≠ input.rank then
    unsupported (.storeExtentCount call.output call.storeExtents.length input.rank)
  else
    let component := Component.ofKind ("LB_" ++ call.output) (.lineBuffer call.storeExtents)
    let component ← component.addInput "in" input
    let component ← component.addOutput "out" output
    let index ← addComponent component
    connect (.port index "in") (.top (wireName call.input))
    addQueued call.output output (.port index "out")

/-- Make the wire of the only consumer another name of the wire of a stream. -/
def aliasStream (stream consumer : String) (shape : Shape) : Constructing Unit := do
  let name := wireName (consumerStream stream consumer)
  addWire name shape
  connect (.top name) (.top (wireName stream))

/-- Connect the consumer with number `c` of a router. -/
def addConsumer (index : Nat) (stream : String) (shape : Shape) (c : Nat) (box : DispatchBox) :
    Constructing Unit :=
  addQueued (consumerStream stream box.name) { shape with fifoDepth := max box.depth 1 }
    (.port index s!"out_{c}")

/-- Add a dispatch router with an output for each consumer. -/
def addRouter (call : DispatchCall) (shape : Shape) : Constructing Unit := do
  let consumers := call.plan.consumers.zipIdx
  let router := Component.ofKind ("DP_" ++ call.stream) (.dispatch call.plan)
  let router ← router.addInput "in" shape
  let router ← consumers.foldlM (fun r (_, c) => r.addOutput s!"out_{c}" shape) router
  let index ← addStateful router
  connect (.port index "in") (.top (wireName call.stream))
  consumers.forM fun (box, c) => addConsumer index call.stream shape c box

/-- Hand a stream to its consumers. -/
def dispatch (call : DispatchCall) : Constructing Unit := do
  let shape ← streamShape call.stream
  match call.isAlias, call.plan.consumers with
  | true, [only] => aliasStream call.stream only.name shape
  | _, _ => addRouter call shape

/-- Change the loop nest around the current statement. -/
def updateNest (change : LoopNest → Fallible LoopNest) (outside : Unsupported) :
    Constructing Unit := do
  match (← get).nest with
  | none => unsupported outside
  | some nest => do
      let nest ← change nest
      modify fun c => { c with nest := some nest }

/-- Read a stream operation. -/
def operation (name : String) (args : List Expr) : Constructing Unit := do
  if name = ReadStream.callName then
    let call ← ReadStream.ofArgs args
    let shape ← streamShape call.stream
    updateNest (fun n => n.read call shape) (.readOutsideNest call.stream)
  else if name = WriteStream.callName then
    let call ← WriteStream.ofArgs args
    let shape ← streamShape call.stream
    updateNest (fun n => n.write call shape) (.writeOutsideNest call.stream)
  else if name = LineBufferCall.callName then lineBuffer (← LineBufferCall.ofArgs args)
  else if name = DispatchCall.callName then dispatch (← DispatchCall.ofArgs args)
  else unsupported (.statementCall name)

/-- The scalars and stencils a nest is given from outside, with their shapes.
    The windows it reads are not among them. -/
def parameters (n : Netlist) (nest : LoopNest) : List String → Fallible (List (String × Shape))
  | [] => .ok []
  | name :: rest =>
      let signal := printName name
      if nest.inputs.any fun i => i.stencil = signal then parameters n nest rest
      else
        match (n.wire? (wireName signal)).filter fun shape => !shape.isStream with
        | some shape => do return (signal, shape) :: (← parameters n nest rest)
        | none => undefinedName name "variable"

/-- The component of a stage. -/
def stageComponent (plan : StagePlan) : Fallible Component := do
  let stage := Component.ofKind plan.moduleName (.stage plan)
  let stage ← stage.addInputs (plan.inputs.map fun i => (i.port, i.shape))
  let stage ← stage.addInputs plan.params
  stage.addOutput plan.output.port plan.output.shape

/-- Add the adapter of a kernel output. -/
def addOutputAdapter (output : NestOutput) (storeExtents : List Nat) : Constructing Unit := do
  let stream := output.port.port
  let inner := output.port.shape.withStoreExtents storeExtents
  inner.validate
  let outer := inner.withKind .busStream
  let adapter := Component.ofKind ("IO_" ++ stream) (.adapter .outward)
  let adapter ← adapter.addInput "data_in" inner
  let adapter ← adapter.addOutput "data_out" outer
  let index ← addStateful adapter
  addPort output.external outer .output
  connect (.port index "data_in") (.top (wireName stream))
  connect (.top output.external) (.port index "data_out")

/-- The image of a kernel output: what the write tells or else the argument. -/
def outputImage (c : Construction) (output : NestOutput) : Option (List Nat) :=
  match output.storeExtents with
  | some extents => some extents
  | none =>
      (c.outputs.find? fun entry => entry.1 = output.port.port).map fun entry =>
        entry.2.storeExtents

/-- Add the stage of a finished loop nest. -/
def addStage (nest : LoopNest) : Constructing Unit := do
  let params ← parameters (← get).netlist nest nest.free
  let (plan, output) ← nest.finish params
  let index ← addStateful (← stageComponent plan)
  plan.inputs.forM fun i => connect (.port index i.port) (.top (wireName i.port))
  plan.params.forM fun (name, _) => connect (.port index name) (.top (wireName name))
  let stream := output.port.port
  addQueued stream output.port.shape (.port index stream)
  let image := outputImage (← get) output
  modify fun c => { c with outputs := c.outputs.filter fun entry => entry.1 ≠ stream }
  match image with
  | some storeExtents => addOutputAdapter output storeExtents
  | none => return ()

/-- The extent of a stream in one dimension. -/
def streamExtent (name : String) (b : Interval) : Fallible Nat :=
  if b.extent ≤ 0 then unsupported (.streamExtent name b.extent.toInt)
  else .ok b.extent.toInt.toNat

/-- The shape of a realized stream. -/
def realizedShape (name : String) (types : List ScalarType) (bounds : List Interval) :
    Fallible Shape :=
  match types with
  | [type] => do
      let elem ← ElemType.ofScalar type
      return .stream elem (← bounds.mapM (streamExtent name))
  | _ => unsupported (.streamTypes name types.length)

/-- Realize a stream as a wire, or a stencil in its nest. -/
def realize (name : String) (types : List ScalarType) (bounds : List Interval) :
    Constructing Unit := do
  if isStreamName name then
    addWire (wireName (printName name)) (← realizedShape name types bounds)
  else if isStencilName name then
    updateNest (fun n => n.realize name types bounds) (.stencilOutsideNest name)
  else unsupported (.realization name)

/-- Read statements inside the producer of a buffer. -/
def inProducer (name : String) (body : Constructing Unit) : Constructing Unit := do
  let outer := (← get).producer
  if isStreamName name then modify fun c => { c with producer := some name }
  body
  modify fun c => { c with producer := outer }

/-- Begin a loop nest at its outermost loop. -/
def beginNest (name : String) (body : Stmt) : Constructing LoopNest := do
  let producer := printName ((← get).producer.getD name)
  return .empty producer (freeNames name body)

/-- Finish the loop nest around the current statement. -/
def endNest : Constructing Unit := do
  match (← get).nest with
  | none => return ()
  | some nest => do
      modify fun c => { c with nest := none }
      addStage nest

/-- Read a loop whose body is read by `inner`. -/
def loop (name : String) (min extent : Expr) (body : Stmt) (inner : Constructing Unit) :
    Constructing Unit := do
  match (← get).nest with
  | some nest => do
      let nest ← nest.enterLoop name min extent body
      modify fun c => { c with nest := some nest }
      inner
  | none => do
      let nest ← (← beginNest name body).enterLoop name min extent body
      modify fun c => { c with nest := some nest }
      inner
      endNest

/-- Read a conditional whose body is read by `inner`. Reads of streams happen
    whether or not the condition holds. -/
def branch (condition : Expr) (thenCase : Stmt) (hasElse : Bool) (inner : Constructing Unit) :
    Constructing Unit := do
  if (← get).nest.isNone || hasElse then unsupported .conditional
  else if thenCase.containsReadStream then inner
  else if thenCase.containsWriteStream then
    modify fun c => { c with nest := c.nest.map fun n => n.pushGuard condition }
    inner
    modify fun c => { c with nest := c.nest.map LoopNest.popGuard }
  else unsupported .conditional

/-- Read an evaluated expression. -/
def evaluate : Expr → Constructing Unit
  | .call _ name args _ => operation name args
  | e => if e.constant?.isSome then return () else unsupported .evaluation

mutual

/-- Read a statement. -/
def statement : Stmt → Constructing Unit
  | .producer name _ body => inProducer name (statement body)
  | .block stmts => statements stmts
  | .loop name min extent kind body =>
      if kind ≠ .serial then unsupported (.loopKind kind.text name)
      else loop name min extent body (statement body)
  | .realize name types bounds body => do
      realize name types bounds
      statement body
  | .provide name values args =>
      updateNest (fun n => n.provide name values args) (.storeOutsideNest name)
  | .letIn name value body => do
      updateNest (fun n => n.bind name value) (.letOutsideNest name)
      statement body
  | .branch condition thenCase elseCase =>
      branch condition thenCase elseCase.isSome (statement thenCase)
  | .evaluate value => evaluate value
  | .assert _ _ => unsupported .assertion
  | .store name _ _ => unsupported (.pointerAccess name)
  | .allocate name _ _ _ => unsupported (.pointerAccess name)
  | .free name => unsupported (.pointerAccess name)

/-- Read statements one after the other. -/
def statements : List Stmt → Constructing Unit
  | [] => return ()
  | s :: rest => do
      statement s
      statements rest

end

/-- Add the slave interface and connect it to the configuration bus. -/
def addBus (n : Netlist) : Fallible (Netlist × Nat) := do
  let slave ← (Component.ofKind slaveInstance .slaveInterface).addOutput startOutput .bit
  let (slave, n) ← busPorts.foldlM (fun (slave, n) (name, width, direction) => do
    let shape := Shape.uint width
    let slave ←
      match direction with
      | .input => slave.addInput name shape
      | .output => slave.addOutput name shape
    return (slave, ← n.addPort name shape direction)) (slave, n)
  let (n, index) ← n.addComponent slave
  let n := busPorts.foldl (fun n (name, _, direction) =>
    match direction with
    | .input => n.connect (.port index name) (.endpoint (.top name))
    | .output => n.connect (.top name) (.endpoint (.port index name))) n
  return (n, index)

/-- Read a kernel. -/
def kernel (k : Kernel) : Constructing Unit := do
  k.args.forM addArgument
  statement k.body

end Construction

namespace Netlist

/-- The design of a kernel, which has passed all checks. -/
def ofKernel (k : Kernel) : Fallible Netlist := do
  let (netlist, slave) ← Construction.addBus (.empty (printName k.name))
  let (_, c) ← (Construction.kernel k).run ⟨netlist, slave, none, none, []⟩
  match c.outputs with
  | (stream, _) :: _ => unsupported (.unwrittenOutput stream)
  | [] => do
      c.netlist.validate
      return c.netlist

end Netlist

end StencilRtl
