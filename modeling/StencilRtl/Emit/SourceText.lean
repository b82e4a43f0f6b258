import StencilRtl.Hardware.Top

/-!
# Source text

The text of all modules of a design.

The register map comes first as a comment, then every module once, in the order
in which they are defined, each below its own comment, and last the top module.

## Main definitions

* `Definition.text`: A module below its comment.
* `Netlist.sourceText`: The text of a design.
-/

namespace StencilRtl

/-- Lines, each ended. -/
def endedLines (lines : List String) : String := String.join (lines.map (· ++ "\n"))

/-- Lines as a comment. -/
def commentText (lines : List String) : String := endedLines (lines.map ("// " ++ ·))

namespace Definition

/-- A module below its comment, with an empty line behind it. -/
def text (d : Definition) : Fallible String := do
  return commentText d.header ++ (← d.content.render) ++ "\n"

end Definition

namespace Netlist

/-- What stands before the modules. -/
def sourceHead (n : Netlist) : String :=
  "`default_nettype none\n\n" ++ commentText n.registers.lines ++ "\n"

/-- The text of the top module, with what stands behind it. -/
def topText (n : Netlist) (top : Rtl.Module) : Fallible String := do
  return commentText [s!"Top module of accelerator `{n.name}'"] ++ (← top.render) ++ "\n"
    ++ "`default_nettype wire\n"

/-- The text of a design. -/
def sourceText (n : Netlist) : Making String := do
  let top ← n.makeTop
  let modules ← (← get).library.definitions.mapM fun d => (d.text : Fallible String)
  return n.sourceHead ++ String.join modules ++ (← n.topText top)

end Netlist

end StencilRtl
