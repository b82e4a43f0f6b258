import StencilRtl.Hardware.Library
import StencilRtl.Name

/-!
# The slave interface

The hardware through which the host controls an accelerator.

The configuration bus has five channels, each a handshake with data beside it.
Two state machines serve it, one for writes and one for reads, and each walks its
states in order and begins anew. A write takes an address, then data, then gives
a response; a read takes an address, fetches, then gives the data. Data is
written byte by byte as the strobes tell.

Writing the control register starts the accelerator. The interface remembers
which blocks have reported that they are done, and the run is over when all of
them have.

## Main definitions

* `BusChannel`, `busChannels`, `busPorts`: The configuration bus.
* `LinearMachine`: A state machine that walks its states in order.
* `SlaveInterface.strobed`: The value written to a register.
* `SlaveInterface.body`: The logic of the interface.
* `SlaveInterface.make`: The module of the interface.
-/

namespace StencilRtl

/-- The width of an address on the configuration bus. -/
def addressWidth : Nat := 32

/-- How the inputs end on which blocks report that they are done. -/
def doneEnding : String := "_done"

/-- One channel of the configuration bus: a handshake and its data. -/
structure BusChannel where
  label : String
  direction : Direction
  data : List (String × Nat)
  deriving DecidableEq, Repr, Inhabited

namespace BusChannel

/-- The signal saying that the sender has data. -/
def valid (c : BusChannel) : String := c.label ++ "VALID"

/-- The signal saying that the receiver takes data. -/
def ready (c : BusChannel) : String := c.label ++ "READY"

/-- The names, widths and directions of the signals of a channel. -/
def ports (c : BusChannel) : List (String × Nat × Direction) :=
  [(c.valid, 1, c.direction), (c.ready, 1, c.direction.flip)]
    ++ c.data.map fun (name, width) => (c.label ++ name, width, c.direction)

/-- Whether data passes. -/
def handshake (c : BusChannel) : Rtl.Expr := .and (.ref c.valid) (.ref c.ready)

end BusChannel

/-- The channel of write addresses. -/
def writeAddressChannel : BusChannel := ⟨"AW", .input, [("ADDR", addressWidth)]⟩

/-- The channel of written data, with a strobe for each byte. -/
def writeDataChannel : BusChannel := ⟨"W", .input, [("DATA", busWidth), ("STRB", busWidth / 8)]⟩

/-- The channel of responses to writes. -/
def writeResponseChannel : BusChannel := ⟨"B", .output, [("RESP", 2)]⟩

/-- The channel of read addresses. -/
def readAddressChannel : BusChannel := ⟨"AR", .input, [("ADDR", addressWidth)]⟩

/-- The channel of read data. -/
def readDataChannel : BusChannel := ⟨"R", .output, [("DATA", busWidth), ("RESP", 2)]⟩

/-- The channels of the configuration bus. -/
def busChannels : List BusChannel :=
  [writeAddressChannel, writeDataChannel, writeResponseChannel, readAddressChannel,
   readDataChannel]

/-- The names, widths and directions of the signals of the configuration bus. -/
def busPorts : List (String × Nat × Direction) := busChannels.flatMap BusChannel.ports

/-- A state of a state machine: the outputs raised in it and the condition under
    which it is left. -/
structure MachineState where
  outputs : List String
  leave : Rtl.Expr

/-- A state machine that walks its states in order and then begins anew. -/
structure LinearMachine where
  tag : String
  states : List MachineState

namespace LinearMachine

open Rtl

/-- The register holding the state. -/
def stateRegister (m : LinearMachine) : String := m.tag ++ "state"

/-- The signal holding the state after the next clock edge. -/
def nextSignal (m : LinearMachine) : String := m.tag ++ "next"

/-- The width of the state. -/
def width (m : LinearMachine) : Nat := bitsNeededFor m.states.length

/-- Whether the machine is in the state with number `i`. -/
def isIn (m : LinearMachine) (i : Nat) : Rtl.Expr := .hasValue m.stateRegister m.width i

/-- The statement that makes `i` the number of the next state. -/
def goTo (m : LinearMachine) (i : Nat) : Rtl.Stmt := .set (.ref m.nextSignal) (plain i)

/-- What happens in the state with number `i`. -/
def branch (m : LinearMachine) (i : Nat) (s : MachineState) : Int × List Rtl.Stmt :=
  (signed32 i,
    [.choose [(s.leave, [m.goTo ((i + 1) % m.states.length)])] (some [m.goTo i])])

/-- The outputs raised in the state with number `i`. -/
def raised (m : LinearMachine) (i : Nat) (s : MachineState) : Body :=
  Body.join (s.outputs.map fun output => Body.assign output (m.isIn i))

/-- The logic of a state machine. -/
def body (m : LinearMachine) : Body :=
  Body.join
    [Body.reg m.stateRegister m.width,
     Body.reg m.nextSignal m.width,
     Body.item (.process .clocked
       [.choose [(.ref reset, [.update (.ref m.stateRegister) (.number 0)])]
         (some [.update (.ref m.stateRegister) (.ref m.nextSignal)])]),
     Body.join (m.states.mapIdx m.raised),
     Body.item (.process .combinational
       [.case (.ref m.stateRegister) (m.states.mapIdx m.branch) (some [m.goTo 0])])]

end LinearMachine

namespace SlaveInterface

open Rtl

/-- The machine serving writes. -/
def writeMachine : LinearMachine :=
  ⟨"wr_",
    [⟨["AWREADY"], .ref "AWVALID"⟩, ⟨["WREADY"], .ref "WVALID"⟩, ⟨["BVALID"], .ref "BREADY"⟩]⟩

/-- The machine serving reads. It fetches in its second state. -/
def readMachine : LinearMachine :=
  ⟨"rd_", [⟨["ARREADY"], .ref "ARVALID"⟩, ⟨[], .bit true⟩, ⟨["RVALID"], .ref "RREADY"⟩]⟩

/-- The register or memory holding a parameter. -/
def storage (e : RegisterEntry) : String := (if e.isArray then "mem_" else "r_") ++ e.name

/-- The register holding the element with number `flat` of a parameter. -/
def element (e : RegisterEntry) (flat : Nat) : Rtl.Expr :=
  if e.isArray then .element (storage e) (.number flat) else .ref (storage e)

/-- A value of some width, extended with zeros to the width of the bus. -/
def toBus (value : Rtl.Expr) (width : Nat) : Rtl.Expr :=
  if busWidth ≤ width then value else .concat [value, .literal (busWidth - width) 0]

/-- The bits from `low` to `high` of a value of some width. A single bit is used
    whole. -/
def bitsOf (value : Rtl.Expr) (high low width : Nat) : Rtl.Expr :=
  if width = 1 then value
  else if high = low then .bitAt value low
  else .range value high low

/-- The byte with number `lane` of a register after a write. -/
def strobedLane (target : Rtl.Expr) (width lane : Nat) : Rtl.Expr :=
  let low := lane * 8
  let high := min (low + 7) (width - 1)
  .mux (.bitAt (.ref "WSTRB") lane) (bitsOf (.ref "WDATA") high low busWidth)
    (bitsOf target high low width)

/-- A register after a write: each byte takes the bus's when its strobe is set and
    keeps its own otherwise. -/
def strobed (target : Rtl.Expr) (width : Nat) : Rtl.Expr :=
  .concat ((List.range ((width + 7) / 8)).map (strobedLane target width))

/-- The declaration of a parameter's storage. -/
def storageDeclaration (e : RegisterEntry) : Body := do
  if e.isArray then Body.memory (storage e) e.elem.bits (← e.words)
  else Body.reg (storage e) e.elem.bits

/-- The register remembering that a block is done. -/
def seen (done : String) : String := "seen_" ++ done

/-- A write to the low byte of the control register. -/
def controlWrite : Rtl.Expr :=
  .all [.ref "wr_en", .hasValue "waddr" addressWidth controlAddress, .bitAt (.ref "WSTRB") 0]

/-- A write that clears done. -/
def clearDone : Rtl.Expr := .and controlWrite (.bitAt (.ref "WDATA") 1)

/-- Whether all blocks are done. -/
def allDone (dones : List String) : Rtl.Expr :=
  .all (dones.map fun d => .or (.ref (seen d)) (.ref d))

/-- The register remembering a block. It forgets with a start and when done is
    cleared. -/
def seenUpdate (done : String) : Body :=
  Body.register (seen done) (.number 0)
    [(.or (.ref "r_start") clearDone, .number 0), (.ref done, .number 1)]

/-- The control and the status. -/
def controlBody (dones : List String) : Body :=
  Body.join
    [Body.register "r_start" (.number 0)
       [(controlWrite, .bitAt (.ref "WDATA") 0), (.bit true, .number 0)],
     Body.join (dones.map seenUpdate),
     Body.register "r_run" (.number 0)
       [(.ref "r_start", .number 1), (allDone dones, .number 0)],
     Body.register "r_done" (.number 0)
       [(.or (.ref "r_start") clearDone, .number 0),
        (.and (.ref "r_run") (allDone dones), .number 1)],
     Body.assign "start" (.ref "r_start")]

/-- The elements of all parameters with their addresses and widths. -/
def elements (registers : List RegisterEntry) : List (Nat × Rtl.Expr × Nat) :=
  registers.flatMap fun e =>
    e.elements.mapIdx fun flat (address, _) => (address, element e flat, e.elem.bits)

/-- The writes to parameters. -/
def writeBody (registers : List RegisterEntry) : Body :=
  let targets := elements registers
  if registers = [] then Body.items []
  else
    Body.item (.process .clocked
      [.choose
        [(.ref reset, targets.map fun (_, target, _) => .update target (.number 0)),
         (.ref "wr_en",
          [.case (.ref "waddr")
            (targets.map fun (address, target, width) =>
              (signed32 address, [.update target (strobed target width)]))
            none])]
        none])

/-- What is read at an address. -/
def readBranch (address : Nat) (value : Rtl.Expr) (width : Nat) : Int × List Rtl.Stmt :=
  (signed32 address, [.update (.ref "rdata") (toBus value width)])

/-- The reads of control, status and parameters. -/
def readBody (registers : List RegisterEntry) : Body :=
  Body.item (.process .clocked
    [.choose
      [(.ref reset, [.update (.ref "rdata") (.number 0)]),
       (readMachine.isIn 1,
        [.case (.ref "raddr")
          ([readBranch controlAddress (.concat [.ref "r_start", .ref "r_done"]) 2,
            readBranch statusAddress (.concat [.ref "r_run", .ref "r_done"]) 2]
            ++ (elements registers).map fun (address, value, width) =>
                readBranch address value width)
          (some [.update (.ref "rdata") (.number 0)])])]
      none])

/-- The output of a parameter. -/
def parameterOutput (e : RegisterEntry) : Body := do
  if e.isArray then Body.assign e.name (.concat ((List.range (← e.words)).map (element e)))
  else Body.assign e.name (element e 0)

/-- The logic of the interface. -/
def body (registers : List RegisterEntry) (dones : List String) : Body :=
  Body.join
    [Body.reg "waddr" addressWidth,
     Body.reg "raddr" addressWidth,
     Body.reg "rdata" busWidth,
     Body.join (["r_start", "r_run", "r_done"].map fun r => Body.reg r 1),
     Body.join (dones.map fun d => Body.reg (seen d) 1),
     Body.join (registers.map storageDeclaration),
     writeMachine.body,
     Body.enabled (.ref "waddr") writeAddressChannel.handshake (.ref "AWADDR"),
     Body.net "wr_en" 1 writeDataChannel.handshake,
     Body.assign "BRESP" (.literal 2 0),
     readMachine.body,
     Body.enabled (.ref "raddr") readAddressChannel.handshake (.ref "ARADDR"),
     Body.assign "RDATA" (.ref "rdata"),
     Body.assign "RRESP" (.literal 2 0),
     controlBody dones,
     writeBody registers,
     readBody registers,
     Body.join (registers.map parameterOutput)]

/-- There is an output of the size of a parameter. -/
def checkParameter (c : Component) (e : RegisterEntry) : Fallible Unit := do
  match c.port? e.name with
  | none => undefinedName e.name "parameter port of the slave interface"
  | some (_, .input) => malformed (.parameterPort e.name)
  | some (shape, .output) => do
      let width ← shape.dataWidth
      if width ≠ (← Word.mul e.elem.bits (← e.words)) then malformed (.parameterPort e.name)
      else return ()

/-- Every parameter has an output of its size. -/
def checkParameters (c : Component) (registers : List RegisterEntry) : Fallible Unit :=
  registers.forM (checkParameter c)

/-- The inputs on which blocks report that they are done. -/
def doneInputs (c : Component) : List String :=
  (c.inputs.map Prod.fst).filter fun name => endsWith name doneEnding

/-- The comment above the interface. -/
def header (registers : List RegisterEntry) (dones : List String) : List String :=
  s!"AXI4-Lite slave: {registers.length} parameter registers, {dones.length} done inputs"
    :: dones.map fun d => s!"  waits for {d}"

/-- Define the module of the slave interface and return its name. -/
def make (c : Component) (map : RegisterMap) : Making String := do
  map.validate
  let dones := doneInputs c
  let registers := map.entries
  let name := "SlaveIf"
  let parameters : Parameters := .slaveInterface registers dones
  if ← Making.needs name parameters then
    checkParameters c registers
    let ports ← c.modulePorts
    let body ← body registers dones
    Making.define name parameters (header registers dones) ports body
  return name

end SlaveInterface

end StencilRtl
