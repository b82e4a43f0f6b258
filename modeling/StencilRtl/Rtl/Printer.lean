import StencilRtl.Rtl.Module

/-!
# Printing modules

The text of a module, line by line.

Nested text is indented by four spaces for each level and lines are never
broken for their width. The connections of an instance are listed by port name;
of two connections of one port the later one counts. A guarded body without
statements that nothing follows is left out together with its brackets.

## Main definitions

* `Rtl.Stmt.lines`, `Rtl.Item.lines`: The lines of statements and items.
* `Rtl.Module.render`: The text of a module.
-/

namespace StencilRtl

namespace Rtl

/-- Lines one level further in. -/
def indented (lines : List String) : List String := lines.map ("    " ++ ·)

/-- Lines separated by commas. -/
def separated : List String → List String
  | [] => []
  | [line] => [line]
  | line :: rest => (line ++ ",") :: separated rest

namespace Stmt

mutual

/-- The lines of a statement. -/
def lines : Stmt → List String
  | .update target value => [target.text ++ " <= " ++ value.text ++ ";"]
  | .set target value => [target.text ++ " = " ++ value.text ++ ";"]
  | .choose branches otherwise => branchLines "" (elseLines otherwise) branches
  | .case subject branches otherwise =>
      ["case (" ++ subject.text ++ ")"]
        ++ indented (caseLines branches ++ defaultLines otherwise) ++ ["endcase"]

/-- The lines of statements one after the other. -/
def listLines : List Stmt → List String
  | [] => []
  | s :: rest => lines s ++ listLines rest

/-- The lines of a chain of guards. `lead` closes the body before the first one
    and `last` is the body if none holds. -/
def branchLines (lead : String) (last : Option (List String)) :
    List (Expr × List Stmt) → List String
  | [] =>
      match last with
      | none => ["end"]
      | some body => ["end else begin"] ++ body ++ ["end"]
  | (guard, body) :: rest =>
      if body.isEmpty && rest.isEmpty && last.isNone then
        [lead ++ "if(" ++ guard.text ++ ") "]
      else
        [lead ++ "if(" ++ guard.text ++ ") begin"] ++ indented (listLines body)
          ++ branchLines "end else " last rest

/-- The lines of the body for the case that no guard holds. -/
def elseLines : Option (List Stmt) → Option (List String)
  | none => none
  | some body => some (indented (listLines body))

/-- The lines of labelled bodies. -/
def caseLines : List (Int × List Stmt) → List String
  | [] => []
  | (label, body) :: rest =>
      [toString label ++ " : begin"] ++ indented (listLines body) ++ ["end"] ++ caseLines rest

/-- The lines of the body for all other values. -/
def defaultLines : Option (List Stmt) → List String
  | none => []
  | some body => ["default : begin"] ++ indented (listLines body) ++ ["end"]

end

end Stmt

/-- The range of a signal of some width; a single bit has none. -/
def rangeText (width : Nat) : String :=
  if width = 1 then "" else s!"[{width - 1}:0] "

/-- Connect a port, dropping an earlier connection of it. -/
def connect (connections : List (String × Expr)) (connection : String × Expr) :
    List (String × Expr) :=
  connections.filter (·.1 ≠ connection.1) ++ [connection]

/-- The connections that count, by port name. -/
def effective (connections : List (String × Expr)) : List (String × Expr) :=
  (connections.foldl connect []).mergeSort fun a b => a.1 ≤ b.1

namespace Item

/-- The lines of an item. -/
def lines : Item → List String
  | .wire name width => ["wire " ++ rangeText width ++ name ++ ";"]
  | .reg name width => ["reg " ++ rangeText width ++ name ++ ";"]
  | .memory name width depth =>
      ["reg " ++ rangeText width ++ name
        ++ (if depth = 1 then "" else s!" [{depth - 1}:0]") ++ ";"]
  | .assign target value => ["assign " ++ target.text ++ " = " ++ value.text ++ ";"]
  | .process .clocked body =>
      [s!"always @(posedge {clock}) begin"] ++ indented (Stmt.listLines body) ++ ["end"]
  | .process .combinational body =>
      ["always @(*) begin"] ++ indented (Stmt.listLines body) ++ ["end"]
  | .submodule name instanceName connections =>
      [name ++ " " ++ instanceName ++ " ("]
        ++ indented (separated ((effective connections).map fun (port, value) =>
            "." ++ port ++ "(" ++ value.text ++ ")"))
        ++ [");"]

end Item

namespace Port

/-- The line of a port. -/
def line (p : Port) : String :=
  (match p.direction with
    | .input => "input wire "
    | .output => "output wire ")
    ++ rangeText p.width ++ p.name

end Port

namespace Module

/-- The lines of a module. -/
def lines (m : Module) : List String :=
  ["module " ++ m.name ++ " ("] ++ indented (separated (m.ports.map Port.line)) ++ [");"]
    ++ indented (m.body.flatMap Item.lines) ++ ["endmodule"]

/-- The text of a module, unless it has a port without bits. -/
def render (m : Module) : Fallible String :=
  if m.ports.any fun p => p.width = 0 then giveWay .emptyDeclaration
  else .ok (String.join (m.lines.map (· ++ "\n")))

end Module

end Rtl

end StencilRtl
