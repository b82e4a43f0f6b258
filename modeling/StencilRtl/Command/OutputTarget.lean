import StencilRtl.Text.Quoted

/-!
# Output targets

Where the output of the generator goes.

## Main definitions

* `OutputTarget`: A standard stream, a file, or nowhere.
* `OutputTarget.ofText`: The target meant by an option.
* `OutputFile`: A target that may have been opened.
-/

namespace StencilRtl

/-- Where output goes. -/
inductive OutputTarget where
  | nowhere
  | standard
  /-- The stream of reports. -/
  | reports
  | file (path : String)
  deriving DecidableEq, Repr, Inhabited

namespace OutputTarget

/-- The target meant by an option. Any other text is a path. -/
def ofText : String → OutputTarget
  | "-" => .standard
  | "<out>" => .standard
  | "<err>" => .reports
  | "<null>" => .nowhere
  | path => .file path

/-- The text of the option meaning a target. -/
def text : OutputTarget → String
  | .standard => "-"
  | .reports => "<err>"
  | .nowhere => "<null>"
  | .file path => path

/-- The name of a target in reports. -/
def pathText : OutputTarget → String
  | .nowhere => "<null>"
  | .standard => "<stdout>"
  | .reports => "<stderr>"
  | .file path => path

end OutputTarget

/-- A target, and whether it has been opened. The first opening of a file empties
    it, later ones append to it. -/
structure OutputFile where
  target : OutputTarget
  opened : Bool
  deriving DecidableEq, Repr, Inhabited

namespace OutputFile

/-- A target that has not been opened. -/
def ofTarget (target : OutputTarget) : OutputFile := ⟨target, false⟩

/-- A full description. -/
def debugText (f : OutputFile) : String :=
  match f.target with
  | .nowhere => "Null"
  | .standard => "Stdout"
  | .reports => "Stderr"
  | .file path =>
      "File \x7b path: " ++ Text.quoted path ++ ", init: "
        ++ (if f.opened then "true" else "false") ++ " \x7d"

/-- The text of a file after some text has been written to it, and the file's
    state. `before` is its text before. -/
def written (f : OutputFile) (before text : String) : String × OutputFile :=
  match f.target with
  | .file _ => ((if f.opened then before else "") ++ text, { f with opened := true })
  | _ => (before, f)

end OutputFile

end StencilRtl
