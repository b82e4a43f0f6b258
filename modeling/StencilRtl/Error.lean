/-!
# Errors

Why a kernel is refused, and the words in which the refusal is reported.

A refusal is a *cause*: a constructor naming what was found, carrying the names
and numbers that appear in its report. Two families cover the causes that the
generator itself raises. `Unsupported` collects what a kernel may ask for but
the hardware cannot express, and is the caller's to fix. `Malformed` collects
broken invariants of a design under construction. An undeclared name, text that
is not a kernel and the two kinds of file trouble stand beside them.

Every wording is produced by `Error.message`, in one place, so that a statement
about a report is a statement about its cause.

## Main definitions

* `Unsupported`, `Malformed`: The causes of refusal.
* `ErrorKind`: The six families a report can belong to.
* `Error`: A cause together with its family.
* `Error.message`: The text of the report.
* `Error.blamesInput`: Whether the input, not the design, is at fault.
-/

namespace StencilRtl

/-- What is wrong with the arguments of a stream operation, by position. -/
inductive ArgumentFault where
  /-- The list ends before this position. -/
  | missing (position : Nat)
  /-- The argument is not a variable naming a buffer. -/
  | notBuffer (position : Nat)
  /-- The argument is not a string constant. -/
  | notText (position : Nat)
  /-- The constant is below its least admissible value. -/
  | below (position : Nat) (value least : Int)
  /-- Arguments are left over. -/
  | trailing (count : Nat)
  /-- A line buffer was given no image shape. -/
  | noStoreExtents
  deriving DecidableEq, Repr

/-- Constructs outside the supported subset. Types appear by their printed
    names. -/
inductive Unsupported where
  | floatType (type : String)
  | floatConstant
  | floatCast (type : String)
  | boundMinimum (minimum : Int)
  | boundExtent (extent : Int)
  | wideParameter (name type : String) (busWidth : Nat)
  | streamParameter (name type : String)
  | notBusStream (name type : String)
  | unwrittenOutput (stream : String)
  | loopKind (kind name : String)
  | loopBoundNotConstant (name bound : String)
  | loopRange (name : String) (first past : Int)
  | emptyLoop (name producer : String)
  | bufferInWindowLoop (name producer : String)
  | stencilTypes (name : String) (count : Nat)
  | stencilRange (name : String) (first past : Int)
  | realizedTwice (name producer : String)
  | streamTypes (name : String) (count : Nat)
  | streamExtent (name : String) (extent : Int)
  | stencilOutsideNest (name : String)
  | realization (name : String)
  | storeOutsideNest (name : String)
  | letOutsideNest (name : String)
  | notAStencil (name : String)
  | valueCount (name : String) (count : Nat)
  | boundTwice (name producer : String)
  | conditional
  | evaluation
  | assertion
  | pointerAccess (name : String)
  | pointerLoad (name : String)
  | statementCall (name : String)
  | readOutsideNest (stream : String)
  | writeOutsideNest (stream : String)
  | readTwice (stream first second : String)
  | writesTwice (producer first second : String)
  | nestWithoutWrite (producer : String)
  | outputNeverProvided (producer stencil : String)
  | malformedCall (call : String) (fault : ArgumentFault)
  | argumentNotConstant (position : Nat) (call : String)
  | storeExtentCount (output : String) (given rank : Nat)
  | argumentCount (name : String) (given expected : Nat)
  | coordinateCount (name : String) (rank given : Nat)
  | indexOutOfBounds (index : Int) (dimension : Nat) (name : String)
  | textValue (value : String)
  | streamOperationValue (name : String)
  | valueCall (name : String)
  | computedLocalWrite (stencil : String)
  | foreignWrite (stencil : String)
  | dispatchDimension (dimension size step storeExtent : Nat)
  | lineBufferRank (rank : Nat)
  | lineBufferVolume (tile window image : List Nat)
  | lineBufferDimension (dimension window image tile : Nat)
  deriving DecidableEq, Repr

/-- Broken invariants of a design under construction. -/
inductive Malformed where
  | zeroWidthElement
  | zeroExtent (extent : Nat) (type : String)
  | storeRank (storeExtents : List Nat) (type : String)
  | storeTooSmall (storeExtent extent : Nat) (type : String)
  | queueDepth
  | parameterTwice (name : String)
  | registerOverlap (name : String) (offset : Nat) (before : String) (past : Nat)
  | registerCollision (name : String) (offset : Nat)
  | portTwice (port instanceName : String)
  | instanceTwice (instanceName : String)
  | noSlaveInterface
  | topNameTwice (name : String)
  | wireTwice (name : String)
  | wireWithoutProducer (name : String)
  | streamFanOut (name : String) (consumers : Nat)
  | portUnconnected (port instanceName : String)
  | notDrivable (signal : String)
  | notADriver (signal : String)
  | mismatchedConnection (target source targetType sourceType : String)
  | combinationalCycle
  | moduleParameters (moduleName : String)
  | elementTypeChange (instanceName inputType outputType : String)
  | lineBufferRanks (tile window image : List Nat)
  | dispatchRanks
  | dispatchBoxRank (consumer : String)
  | stageWithoutLoops (producer : String)
  | loopVariableTwice (name producer : String)
  | assemblyOfNonStream (type : String)
  | parameterPort (name : String)
  | undrivenSignal (signal : String)
  deriving DecidableEq, Repr

/-- The families of reports. -/
inductive ErrorKind where
  /-- A construct outside the supported subset. -/
  | unsupported
  /-- A broken invariant of the design. -/
  | malformed
  /-- A name that was never declared. -/
  | undefined
  /-- Text that is not a kernel. -/
  | parse
  /-- Trouble while writing the output. -/
  | write
  /-- A file that cannot be opened. -/
  | invalidFile
  deriving DecidableEq, Repr

/-- Why nothing was generated. -/
inductive Error where
  | unsupported (cause : Unsupported)
  | malformed (cause : Malformed)
  /-- `name` was used as a `role` but never declared as one. -/
  | undefined (name role : String)
  | parse (detail : String)
  | write (detail : String)
  | invalidFile (detail : String)
  deriving DecidableEq, Repr

/-- Numbers separated by commas, the form in which shapes are listed. -/
def listed (numbers : List Nat) : String :=
  String.intercalate ", " (numbers.map toString)

/-- A number in hexadecimal, lower case, without leading zeros. -/
def hexadecimal (n : Nat) : String :=
  String.ofList (Nat.toDigits 16 n)

namespace ArgumentFault

/-- The wording of an argument fault. -/
def text : ArgumentFault → String
  | .missing position => s!"missing argument {position}"
  | .notBuffer position => s!"argument {position} is not a buffer name"
  | .notText position => s!"argument {position} is not a string"
  | .below position value least =>
      s!"argument {position} is {value}, expected at least {least}"
  | .trailing count => s!"{count} unexpected trailing argument(s)"
  | .noStoreExtents => "no store extents"

end ArgumentFault

namespace Unsupported

/-- The wording of an unsupported construct, without its family's lead. -/
def text : Unsupported → String
  | .floatType type => s!"floating point type `{type}'"
  | .floatConstant => "floating point constant"
  | .floatCast type => s!"cast to {type}"
  | .boundMinimum minimum => s!"stencil bound with nonzero minimum {minimum}"
  | .boundExtent extent => s!"stencil bound with extent {extent}"
  | .wideParameter name type busWidth =>
      s!"parameter `{name}' of type {type} is wider than the {busWidth}-bit configuration bus"
  | .streamParameter name type => s!"parameter `{name}' has stream type {type}"
  | .notBusStream name type => s!"kernel stream `{name}' of type {type} is not a bus stream"
  | .unwrittenOutput stream => s!"kernel output `{stream}' is never written"
  | .loopKind kind name => s!"{kind} loop `{name}'"
  | .loopBoundNotConstant name bound => s!"loop `{name}' has a non-constant {bound}"
  | .loopRange name first past => s!"loop `{name}' over [{first}, {past})"
  | .emptyLoop name producer => s!"loop `{name}' of `{producer}' has no iterations"
  | .bufferInWindowLoop name producer =>
      s!"loop `{name}' realizes buffers inside a window loop of `{producer}'"
  | .stencilTypes name count => s!"`{name}' realized with {count} value types"
  | .stencilRange name first past => s!"`{name}' realized over [{first}, {past})"
  | .realizedTwice name producer => s!"`{name}' realized twice in `{producer}'"
  | .streamTypes name count => s!"stream `{name}' with {count} value types"
  | .streamExtent name extent => s!"stream `{name}' with extent {extent}"
  | .stencilOutsideNest name => s!"stencil `{name}' realized outside of a loop nest"
  | .realization name => s!"realization of `{name}'"
  | .storeOutsideNest name => s!"store into `{name}' outside of a loop nest"
  | .letOutsideNest name => s!"`let {name}' outside of a loop nest"
  | .notAStencil name => s!"store into `{name}', which is not a stencil"
  | .valueCount name count => s!"`{name}' provided with {count} values"
  | .boundTwice name producer => s!"`{name}' bound twice in the loop nest of `{producer}'"
  | .conditional => "general if-then-else"
  | .evaluation => "evaluation of a non-call expression"
  | .assertion => "assertion"
  | .pointerAccess name => s!"pointer-based access to `{name}'"
  | .pointerLoad name => s!"pointer load from `{name}'"
  | .statementCall name => s!"call to `{name}' as a statement"
  | .readOutsideNest stream => s!"`{stream}' read outside of a loop nest"
  | .writeOutsideNest stream => s!"`{stream}' written outside of a loop nest"
  | .readTwice stream first second => s!"`{stream}' read into both `{first}' and `{second}'"
  | .writesTwice producer first second => s!"`{producer}' writes both `{first}' and `{second}'"
  | .nestWithoutWrite producer => s!"the loop nest of `{producer}' never writes a stream"
  | .outputNeverProvided producer stencil =>
      s!"`{producer}' never writes its output stencil `{stencil}'"
  | .malformedCall call fault => s!"malformed `{call}' call: {fault.text}"
  | .argumentNotConstant position call =>
      s!"argument {position} of `{call}' is not a constant integer"
  | .storeExtentCount output given rank =>
      s!"line buffer `{output}' has {given} store extents for a rank {rank} stream"
  | .argumentCount name given expected =>
      s!"`{name}' called with {given} arguments, expected {expected}"
  | .coordinateCount name rank given =>
      s!"`{name}' of rank {rank} indexed with {given} coordinates"
  | .indexOutOfBounds index dimension name =>
      s!"index {index} out of bounds in dimension {dimension} of `{name}'"
  | .textValue value => s!"string `{value}' used as a value"
  | .streamOperationValue name => s!"stream operation `{name}' used as a value"
  | .valueCall name => s!"call to `{name}'"
  | .computedLocalWrite stencil => s!"local stencil `{stencil}' written at a computed index"
  | .foreignWrite stencil => s!"write to `{stencil}', which is not produced by this loop nest"
  | .dispatchDimension dimension size step storeExtent =>
      s!"dispatch dimension {dimension}: size {size} step {step} over store extent {storeExtent}"
  | .lineBufferRank rank => s!"line buffer of rank {rank}"
  | .lineBufferVolume tile window image =>
      s!"3-D line buffer from [{listed tile}] to [{listed window}] over [{listed image}]; " ++
        "one of the outer dimensions must be passed whole"
  | .lineBufferDimension dimension window image tile =>
      s!"line buffer dimension {dimension}: window {window} and image {image} must be " ++
        s!"multiples of the tile {tile} and the window must fit"

end Unsupported

namespace Malformed

/-- The wording of a broken invariant, without its family's lead. -/
def text : Malformed → String
  | .zeroWidthElement => "zero-width element type"
  | .zeroExtent extent type => s!"extent {extent} in type {type}"
  | .storeRank storeExtents type =>
      s!"store extents [{listed storeExtents}] do not match the rank of {type}"
  | .storeTooSmall storeExtent extent type =>
      s!"store extent {storeExtent} smaller than window extent {extent} in {type}"
  | .queueDepth => "FIFO of depth 0"
  | .parameterTwice name => s!"parameter `{name}' allocated twice in the register map"
  | .registerOverlap name offset before past =>
      s!"register `{name}' at 0x{hexadecimal offset} overlaps `{before}' ending at " ++
        s!"0x{hexadecimal past}"
  | .registerCollision name offset =>
      s!"register `{name}' at 0x{hexadecimal offset} collides with another range"
  | .portTwice port instanceName => s!"port `{port}' declared twice on `{instanceName}'"
  | .instanceTwice instanceName => s!"instance `{instanceName}' created twice"
  | .noSlaveInterface => "netlist has no slave interface"
  | .topNameTwice name => s!"top-level name `{name}' declared twice"
  | .wireTwice name => s!"wire `{name}' declared twice"
  | .wireWithoutProducer name => s!"wire `{name}' has no producer"
  | .streamFanOut name consumers =>
      s!"stream `{name}' has {consumers} consumers; fan-out needs a dispatch router"
  | .portUnconnected port instanceName => s!"port `{port}' of `{instanceName}' is not connected"
  | .notDrivable signal => s!"`{signal}' cannot be driven"
  | .notADriver signal => s!"`{signal}' cannot drive other signals"
  | .mismatchedConnection target source targetType sourceType =>
      s!"connection `{target} <= {source}' between {targetType} and {sourceType}"
  | .combinationalCycle => "stream dataflow contains a cycle without a FIFO"
  | .moduleParameters moduleName =>
      s!"module `{moduleName}' requested with two different parameter sets"
  | .elementTypeChange instanceName inputType outputType =>
      s!"line buffer `{instanceName}' changes the element type from {inputType} to {outputType}"
  | .lineBufferRanks tile window image =>
      s!"line buffer ranks differ: tile [{listed tile}], window [{listed window}], " ++
        s!"image [{listed image}]"
  | .dispatchRanks => "dispatch dimensions disagree"
  | .dispatchBoxRank consumer => s!"dispatch consumer `{consumer}' has a box of the wrong rank"
  | .stageWithoutLoops producer => s!"pipeline `{producer}' has no loops"
  | .loopVariableTwice name producer => s!"loop variable `{name}' bound twice in `{producer}'"
  | .assemblyOfNonStream type => s!"output assembly for non-stream type {type}"
  | .parameterPort name => s!"parameter port `{name}' does not match its register"
  | .undrivenSignal signal => s!"signal `{signal}' is never driven"

end Malformed

namespace ErrorKind

/-- The name under which a family is reported. -/
def name : ErrorKind → String
  | .unsupported => "Unsupported"
  | .malformed => "MalformedStructure"
  | .undefined => "Undefined"
  | .parse => "Parse"
  | .write => "WriteError"
  | .invalidFile => "InvalidFile"

/-- How a report of a family opens. File trouble is reported as it is. -/
def lead : ErrorKind → String
  | .unsupported => "Unsupported construct: "
  | .malformed => "Malformed Structure: "
  | .undefined => "Undefined "
  | .parse => "Parse error: "
  | .write => ""
  | .invalidFile => ""

/-- The families whose reports blame the input: the caller can mend it, while
    the others point at the design or at a file. -/
def blamesInput : ErrorKind → Bool
  | .unsupported => true
  | .undefined => true
  | .parse => true
  | .malformed => false
  | .write => false
  | .invalidFile => false

end ErrorKind

namespace Error

/-- The family of an error. -/
def kind : Error → ErrorKind
  | .unsupported _ => .unsupported
  | .malformed _ => .malformed
  | .undefined _ _ => .undefined
  | .parse _ => .parse
  | .write _ => .write
  | .invalidFile _ => .invalidFile

/-- What an error adds to the lead of its family. -/
def detail : Error → String
  | .unsupported cause => cause.text
  | .malformed cause => cause.text
  | .undefined name role => s!"{role}: {name}"
  | .parse detail => detail
  | .write detail => detail
  | .invalidFile detail => detail

/-- The text of a report: the lead of its family, then the detail. -/
def message (e : Error) : String :=
  e.kind.lead ++ e.detail

/-- Whether the input is at fault rather than the design or a file. -/
def blamesInput (e : Error) : Bool :=
  e.kind.blamesInput

/-- Trouble reported by the file system while writing. -/
def ofFileSystem (detail : String) : Error :=
  .write s!"IO Error: {detail}"

/-- Trouble while formatting output, which has a single fixed wording. -/
def formatting : Error :=
  .write "Formatting Error: an error occurred when formatting an argument"

end Error

end StencilRtl
