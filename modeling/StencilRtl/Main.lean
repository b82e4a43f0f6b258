import StencilRtl.Command.Run

/-!
# The program

The command line program: it reads what it needs, carries out its command line
as `runProgram` says, and makes the effect happen.

## Main definitions

* `main`: The program.
-/

namespace StencilRtl

/-- The text of a file, if it can be read. -/
def fileText (path : String) : IO (Option String) := do
  try return some (← IO.FS.readFile path) catch _ => return none

/-- Whether a path leads to a directory. -/
def isDirectoryPath (path : String) : IO Bool := do
  ((← IO.currentDir) / path).isDir

/-- The path of the output, if it is a file. -/
def OutputTarget.path? : OutputTarget → Option String
  | .file path => some path
  | _ => none

/-- The files a command line refers to, as far as they can be read, and the
    directories of these files. -/
def referredFiles (options : Options) : IO FileTree := do
  let named := options.file.toList ++ options.output.path?.toList
  let texts ← named.mapM fun path => do return (← fileText path).map fun text => (path, text)
  let directories ← (named ++ named.map FileTree.parent).filterM isDirectoryPath
  return ⟨directories, texts.filterMap id⟩

/-- What the program can read under some options. -/
def surroundings (options : Options) : IO Surroundings := do
  let files ← referredFiles options
  let standardInput ← if options.file.isNone then (← IO.getStdin).readToEnd else pure ""
  return ⟨standardInput, files⟩

/-- Make an effect happen. -/
def perform (options : Option Options) (e : Effect) : IO UInt32 := do
  (← IO.getStdout).putStr e.output
  (← IO.getStderr).putStr e.reports
  if let some path := options.bind (·.output.path?) then
    if let some text := e.files.read? path then IO.FS.writeFile path text
  return UInt32.ofNat e.exitCode

end StencilRtl

open StencilRtl in
/-- Carry out a command line. -/
def main (args : List String) : IO UInt32 := do
  match Options.ofArgs args with
  | .ok options => perform (some options) (runProgram (← surroundings options) args)
  | .error _ => perform none (runProgram ⟨"", .ofFiles []⟩ args)
