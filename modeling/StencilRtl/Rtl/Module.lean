import StencilRtl.Rtl.Expr
import StencilRtl.Shape

/-!
# Hardware modules

Modules of the hardware language, as data.

A module has ports and a body of items in written order: declarations,
continuous assignments, processes and instances of other modules. Processes run
on the rising edge of the clock or whenever something they read changes.

Declaring nothing is not possible: a signal has at least one bit and a memory at
least one element. The functions that declare refuse otherwise, and since the
parts of a body are put together in order, the first such declaration decides.
A port is only held to this when its module is printed.

## Main definitions

* `Rtl.Stmt`, `Rtl.Item`, `Rtl.Port`, `Rtl.Module`: The parts of a module.
* `Rtl.Body`: Items under construction.
* `Rtl.Body.wire`, `Rtl.Body.reg`, `Rtl.Body.memory`: Checked declarations.
* `Rtl.Body.register`: A register with a reset value and guarded updates.
-/

namespace StencilRtl

namespace Rtl

/-- The clock every module is driven by. -/
def clock : String := "clk"

/-- The synchronous reset every module obeys. -/
def reset : String := "reset"

/-- Statements of a process. -/
inductive Stmt where
  /-- An update that takes effect at the end of the step. -/
  | update (target value : Expr)
  /-- An assignment that takes effect at once. -/
  | set (target value : Expr)
  /-- The body of the first guard that holds, or else the last body. -/
  | choose (branches : List (Expr × List Stmt)) (otherwise : Option (List Stmt))
  /-- The body whose label equals the subject, or else the last body. -/
  | case (subject : Expr) (branches : List (Int × List Stmt)) (otherwise : Option (List Stmt))
  deriving Repr, Inhabited

namespace Stmt

/-- A body run only if a condition holds. -/
def when (condition : Expr) (body : List Stmt) : Stmt := .choose [(condition, body)] none

end Stmt

/-- When a process runs. -/
inductive Trigger where
  /-- On the rising edge of the clock. -/
  | clocked
  /-- Whenever something it reads changes. -/
  | combinational
  deriving DecidableEq, Repr, Inhabited

/-- One item of a module's body. -/
inductive Item where
  | wire (name : String) (width : Nat)
  | reg (name : String) (width : Nat)
  | memory (name : String) (width depth : Nat)
  | assign (target value : Expr)
  | process (trigger : Trigger) (body : List Stmt)
  | submodule (name instanceName : String) (connections : List (String × Expr))
  deriving Repr, Inhabited

/-- A module's port. -/
structure Port where
  name : String
  width : Nat
  direction : Direction
  deriving DecidableEq, Repr, Inhabited

namespace Port

/-- An input of some width. -/
def input (name : String) (width : Nat) : Port := ⟨name, width, .input⟩

/-- An output of some width. -/
def output (name : String) (width : Nat) : Port := ⟨name, width, .output⟩

/-- The port implementing a signal. -/
def ofSignal (s : Signal) : Port := ⟨s.name, s.width, s.direction⟩

/-- The clock and the reset, which come first. -/
def common : List Port := [.input clock 1, .input reset 1]

/-- The ports implementing one that has a shape. -/
def ofShape (name : String) (shape : Shape) (direction : Direction) : Fallible (List Port) := do
  return (← shape.signals name direction).map ofSignal

end Port

/-- A module of the hardware language. -/
structure Module where
  name : String
  ports : List Port
  body : List Item
  deriving Repr, Inhabited

/-- Items of a body, unless one of them cannot be built. -/
abbrev Body := Fallible (List Item)

namespace Body

/-- Bodies one after the other. The first one that cannot be built decides. -/
def join : List Body → Body
  | [] => .ok []
  | body :: rest => do
      let items ← body
      return items ++ (← join rest)

/-- One item that can always be built. -/
def item (i : Item) : Body := .ok [i]

/-- Items that can always be built. -/
def items (is : List Item) : Body := .ok is

/-- Declare a wire. -/
def wire (name : String) (width : Nat) : Body :=
  if width = 0 then giveWay .emptyDeclaration else .ok [.wire name width]

/-- Declare a register. -/
def reg (name : String) (width : Nat) : Body :=
  if width = 0 then giveWay .emptyDeclaration else .ok [.reg name width]

/-- Declare a memory. -/
def memory (name : String) (width depth : Nat) : Body :=
  if width = 0 ∨ depth = 0 then giveWay .emptyDeclaration else .ok [.memory name width depth]

/-- Drive a signal. -/
def assign (target : String) (value : Expr) : Body := .ok [.assign (.ref target) value]

/-- Declare a wire together with its driver. -/
def net (name : String) (width : Nat) (value : Expr) : Body :=
  join [wire name width, assign name value]

/-- Update `target` on each clock edge: to `initial` under reset, or else to the
    value of the first guard that holds. -/
def register (target : String) (initial : Expr) (updates : List (Expr × Expr)) : Body :=
  .ok [.process .clocked
    [.choose
      ((.ref reset, [.update (.ref target) initial])
        :: updates.map fun (guard, value) => (guard, [.update (.ref target) value]))
      none]]

/-- Update `target` on each clock edge on which `enable` holds. -/
def enabled (target enable value : Expr) : Body :=
  .ok [.process .clocked [.when enable [.update target value]]]

end Body

/-- The low 32 bits of a number, read with a sign. Plain numbers in module text
    are of this kind. -/
def signed32 (n : Nat) : Int := (n : Int).bmod UInt32.size

/-- A plain number. -/
def plain (n : Nat) : Expr := .number (signed32 n)

/-- Connections of an instance to the clock and the reset. -/
def commonConnections : List (String × Expr) := [(clock, .ref clock), (reset, .ref reset)]

/-- Connections of ports to signals of the same names. -/
def sameNames (names : List String) : List (String × Expr) :=
  names.map fun name => (name, .ref name)

end Rtl

end StencilRtl
