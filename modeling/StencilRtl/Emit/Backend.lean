import StencilRtl.Emit.ModuleUses
import StencilRtl.Emit.RegisterHeader

/-!
# Backends

The forms in which a design is written.

## Main definitions

* `Backend`: A form, or none.
* `Backend.ofName`: The form of a name.
* `Backend.check`: What has to hold of a design in a form.
* `Backend.emit`: A design in a form.
-/

namespace StencilRtl

/-- The forms in which a design is written. -/
inductive Backend where
  /-- The text of all modules. -/
  | sourceText
  /-- The uses of modules. -/
  | moduleUses
  /-- The header for the host. -/
  | registerHeader
  /-- Nothing is written. -/
  | nothing
  deriving DecidableEq, Repr

namespace Backend

instance : Inhabited Backend := ⟨.sourceText⟩

/-- All forms. -/
def all : List Backend := [.sourceText, .moduleUses, .registerHeader, .nothing]

/-- The name of a form. -/
def name : Backend → String
  | .sourceText => "verilog"
  | .moduleUses => "module-uses"
  | .registerHeader => "reg-header"
  | .nothing => "none"

/-- Why a name is no form. -/
def rejection (given : String) : String :=
  s!"`{given}` is not a valid backend.\nValid backends: "
    ++ String.intercalate ", " (all.map name)

/-- The form of a name, or why there is none. -/
def ofName (given : String) : Except String Backend :=
  match all.find? fun b => b.name = given with
  | some b => .ok b
  | none => .error (rejection given)

/-- What has to hold of a design to be written in a form. -/
def check (n : Netlist) : Backend → Fallible Unit
  | .sourceText => n.validate
  | .moduleUses => n.validate
  | .registerHeader => n.registers.validate
  | .nothing => .ok ()

/-- A checked design in a form. -/
def emit (n : Netlist) : Backend → Making String
  | .sourceText => n.sourceText
  | .moduleUses => n.moduleUsesText
  | .registerHeader => n.registerHeader
  | .nothing => return ""

/-- Whether the output is opened before the design is written, so that it is
    left empty when that fails. -/
def opensFirst : Backend → Bool
  | .sourceText => true
  | .moduleUses => false
  | .registerHeader => true
  | .nothing => false

/-- A design in a form, and the warnings given on the way. -/
def run (b : Backend) (n : Netlist) : Except Failure String × List Warning :=
  let making : Making String := do
    b.check n
    b.emit n
  let (result, workshop) := making.run.run .empty
  (result, workshop.warnings)

end Backend

end StencilRtl
