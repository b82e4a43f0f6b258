import StencilRtl.Command.OutputTarget
import StencilRtl.Emit.Backend

/-!
# Options

The words of a command line.

Words that start with a dash are options until a double dash ends them. An option
with a value takes the next word, whatever it is, and is given once. Of the other
words there is at most one, the kernel. The first word that cannot be used ends
the reading.

## Main definitions

* `LogLevel`: How much is reported.
* `Options`: What a command line asks for.
* `EarlyExit`: Why the reading ended early.
* `Options.ofArgs`: The options of a command line.
-/

namespace StencilRtl

/-- How much is reported. -/
inductive LogLevel where
  | off | error | warn | info | debug | trace
  deriving DecidableEq, Repr, Inhabited

namespace LogLevel

/-- All levels. -/
def all : List LogLevel := [.off, .error, .warn, .info, .debug, .trace]

/-- The name of a level. -/
def name : LogLevel → String
  | .off => "OFF"
  | .error => "ERROR"
  | .warn => "WARN"
  | .info => "INFO"
  | .debug => "DEBUG"
  | .trace => "TRACE"

/-- The level of a name in upper or lower case. -/
def ofName (given : String) : Except String LogLevel :=
  match all.find? fun l => l.name = given.map Char.toUpper with
  | some l => .ok l
  | none => .error "attempted to convert a string that doesn't match an existing log level"

end LogLevel

/-- The name under which the program is called. -/
def programName : String := "sten"

/-- What a command line asks for. -/
structure Options where
  /-- The kernel, read from standard input if there is none. -/
  file : Option String
  output : OutputTarget
  backend : Backend
  logLevel : LogLevel
  dumpKernel : Bool
  deriving DecidableEq, Repr, Inhabited

/-- Why a command line is not carried out. -/
structure EarlyExit where
  output : String
  success : Bool
  deriving DecidableEq, Repr, Inhabited

/-- What has been read of a command line. -/
structure GivenOptions where
  file : Option String
  output : Option OutputTarget
  backend : Option Backend
  logLevel : Option LogLevel
  dumpKernel : Bool
  /-- Whether the usage was asked for. -/
  help : Bool
  /-- Whether words with a dash are no longer options. -/
  ended : Bool
  deriving Repr, Inhabited

namespace GivenOptions

/-- Nothing has been read. -/
def none : GivenOptions := ⟨.none, .none, .none, .none, false, false, false⟩

/-- The options, with what stands for those not given. -/
def complete (g : GivenOptions) : Options :=
  ⟨g.file, g.output.getD .standard, g.backend.getD default, g.logLevel.getD .warn, g.dumpKernel⟩

end GivenOptions

/-- The lines explaining the options. -/
def usageLines : List String :=
  [s!"Usage: {programName} [<file>] [-o <output>] [-b <backend>] [--log <log>] [--dump-kernel]",
   "",
   "Generate RTL for a stencil/stream dataflow kernel.",
   "",
   "Positional Arguments:",
   "  file              kernel to compile, as JSON. Reads stdin when omitted.",
   "",
   "Options:",
   "  -o, --output      output file, default is stdout",
   "  -b, --backend     select a backend: verilog, module-uses, reg-header or none",
   "  --log             logging level, default is warn",
   "  --dump-kernel     print the decoded kernel as JSON to stderr before translating",
   "                    it",
   "  --help, help      display usage information"]

namespace Options

/-- Stop with a report. -/
def stop {α : Type} (output : String) : Except EarlyExit α := .error ⟨output, false⟩

/-- The value of an option that may be given once. `before` is its value so far. -/
def once {α : Type} (option value : String) (before : Option α)
    (parsed : Except String α) : Except EarlyExit (Option α) :=
  let report (detail : String) : String :=
    s!"Error parsing option '{option}' with value '{value}': {detail}\n"
  match before, parsed with
  | some _, _ => stop (report "duplicate values provided")
  | none, .ok v => .ok (some v)
  | none, .error detail => stop (report detail)

/-- The options that take a value. -/
def valueOptions : List String := ["-o", "--output", "-b", "--backend", "--log"]

/-- Take an option with its value. -/
def takeValue (g : GivenOptions) (option value : String) : Except EarlyExit GivenOptions :=
  if option = "-o" ∨ option = "--output" then do
    return { g with output := ← once option value g.output (.ok (.ofText value)) }
  else if option = "-b" ∨ option = "--backend" then do
    return { g with backend := ← once option value g.backend (Backend.ofName value) }
  else do
    return { g with logLevel := ← once option value g.logLevel (LogLevel.ofName value) }

/-- Report a word that cannot be used. -/
def unrecognized {α : Type} (word : String) : Except EarlyExit α :=
  stop s!"Unrecognized argument: {word}\n"

/-- Read the words of a command line. -/
def readWords (g : GivenOptions) : List String → Except EarlyExit GivenOptions
  | [] => .ok g
  | word :: rest =>
      if (word = "--help" || word = "help") && !g.ended then
        readWords { g with help := true } rest
      else if word.toList.head? = some '-' && !g.ended then
        if word = "--" then readWords { g with ended := true } rest
        else if g.help then stop "Trailing arguments are not allowed after `help`."
        else if word = "--dump-kernel" then readWords { g with dumpKernel := true } rest
        else if word ∈ valueOptions then
          match rest with
          | [] => stop s!"No value provided for option '{word}'.\n"
          | value :: rest => do readWords (← takeValue g word value) rest
        else unrecognized word
      else if g.file.isSome then unrecognized word
      else readWords { g with file := some word } rest

/-- The options of a command line. -/
def ofArgs (args : List String) : Except EarlyExit Options := do
  let given ← readWords .none args
  if given.help then .error ⟨endedLines usageLines, true⟩ else return given.complete

end Options

end StencilRtl
