import StencilRtl.Command.Options
import StencilRtl.Kernel.Decode
import StencilRtl.Kernel.Encode
import StencilRtl.Netlist.OfKernel

/-!
# Running the program

What the program does with a command line.

The surroundings of the program are what it can read, and what it does is
described by its exit code, the texts it writes to the standard streams, and
what becomes of the files.

## Main definitions

* `FileTree`: The files of a directory.
* `Surroundings`, `Effect`: What the program reads and what it does.
* `runProgram`: Carrying out a command line.
-/

namespace StencilRtl

/-- The files of a directory with their texts. A directory inside it exists if it
    is listed or a file lies in it. -/
structure FileTree where
  directories : List String
  files : List (String × String)
  deriving DecidableEq, Repr, Inhabited

namespace FileTree

/-- Some files, in directories that exist for their sake. -/
def ofFiles (files : List (String × String)) : FileTree := ⟨[], files⟩

/-- The parts of a path. Dots stand for the directory itself. -/
def parts (path : String) : List String :=
  (path.splitOn "/").filter fun part => part ≠ "" && part ≠ "."

/-- The directory a path lies in. -/
def parent (path : String) : String := String.intercalate "/" (path.splitOn "/").dropLast

/-- The report on a path that leads nowhere. -/
def missingReport : String := "No such file or directory (os error 2)"

/-- The report on a path that leads to a directory. -/
def directoryReport : String := "Is a directory (os error 21)"

/-- The text of a file. -/
def read? (t : FileTree) (path : String) : Option String :=
  (t.files.find? fun f => parts f.1 = parts path).map Prod.snd

/-- Whether a path given by its parts is a directory. -/
def isDirectory (t : FileTree) (path : List String) : Bool :=
  path = []
    || t.directories.any (fun d => path.isPrefixOf (parts d))
    || t.files.any fun f => path.isPrefixOf (parts f.1) && path ≠ parts f.1

/-- The files after a text has been put into a file, or why it cannot be. -/
def put (t : FileTree) (path text : String) : Except String FileTree :=
  let target := parts path
  if path = "" then .error missingReport
  else if t.isDirectory target then .error directoryReport
  else if !t.isDirectory target.dropLast then .error missingReport
  else .ok { t with files := t.files.filter (fun f => parts f.1 ≠ target) ++ [(path, text)] }

end FileTree

/-- What the program can read. -/
structure Surroundings where
  standardInput : String
  files : FileTree

/-- What the program does. -/
structure Effect where
  exitCode : Nat
  output : String
  reports : String
  files : FileTree
  deriving DecidableEq, Repr, Inhabited

namespace Effect

/-- Nothing is done. -/
def none (files : FileTree) : Effect := ⟨0, "", "", files⟩

/-- A report is given beside the others. -/
def report (e : Effect) (text : String) : Effect := { e with reports := e.reports ++ text }

/-- The exit code of a program that gave way. -/
def faultCode : Nat := 101

/-- The program ends with a failure. -/
def fail (e : Effect) : Failure → Effect
  | .error error => { e.report s!"Error: {error.message}\n" with exitCode := 1 }
  | .fault _ => { e with exitCode := faultCode }

/-- A text is written to a target. -/
def write (e : Effect) (target : OutputTarget) (text : String) : Effect :=
  match target with
  | .nowhere => e
  | .standard => { e with output := e.output ++ text }
  | .reports => e.report text
  | .file path =>
      match e.files.put path text with
      | .ok files => { e with files }
      | .error detail => e.fail (.error (.invalidFile s!"Failed to open `{path}': {detail}"))

/-- A target is opened, which empties a file. -/
def canOpen (e : Effect) (target : OutputTarget) : Bool := (e.write target "").exitCode = 0

end Effect

/-- The report that ends a refused command line. -/
def earlyReport (output : String) : String :=
  output ++ s!"\nRun {programName} --help for more information.\n"

/-- The text of the kernel. -/
def kernelText (s : Surroundings) (file : Option String) : Fallible String :=
  match file with
  | none => .ok s.standardInput
  | some path =>
      match s.files.read? path with
      | some text => .ok text
      | none => .error (.error (.invalidFile s!"{path}: {FileTree.missingReport}"))

/-- Write a design in a form. A form that opens its target first leaves it empty
    if the design cannot be written. -/
def writeDesign (e : Effect) (options : Options) (n : Netlist) : Effect :=
  if options.backend = .nothing then e
  else
    match options.backend.check n, options.backend.run n with
    | .error failure, _ => e.fail failure
    | .ok _, (.ok text, _) => e.write options.output text
    | .ok _, (.error failure, _) =>
        if options.backend.opensFirst then
          let opened := e.write options.output ""
          if e.canOpen options.output then opened.fail failure else opened
        else e.fail failure

/-- The report showing a kernel, if it is asked for. -/
def dump (options : Options) (k : Kernel) : String :=
  if options.dumpKernel then k.text ++ "\n" else ""

/-- Carry out the options of a command line. -/
def runOptions (s : Surroundings) (options : Options) : Effect :=
  let start := Effect.none s.files
  match do Kernel.ofText (← kernelText s options.file) with
  | .error failure => start.fail failure
  | .ok kernel =>
      let shown := start.report (dump options kernel)
      match Netlist.ofKernel kernel with
      | .error failure => shown.fail failure
      | .ok netlist => writeDesign shown options netlist

/-- Carry out a command line. -/
def runProgram (s : Surroundings) (args : List String) : Effect :=
  match Options.ofArgs args with
  | .ok options => runOptions s options
  | .error ⟨output, true⟩ => { Effect.none s.files with output := output ++ "\n" }
  | .error ⟨output, false⟩ =>
      { Effect.none s.files with exitCode := 1, reports := earlyReport output }

end StencilRtl
