import StencilRtl.Emit.SourceText
import StencilRtl.Name

/-!
# Register headers

Named constants for the addresses of an accelerator's registers, for programs on
the host.

## Main definitions

* `macroName`: The constant made from a name.
* `Netlist.registerHeader`: The header of a design.
-/

namespace StencilRtl

/-- The constant made from a name, so that `weight_stencil[1][0]` becomes
    `WEIGHT_STENCIL_1_0`. -/
def macroName (name : String) : String :=
  String.ofList ((name.toList.filter (· != ']')).map fun c =>
    if isIdentifierChar c then c.toUpper else '_')

/-- A number in hexadecimal, as it is written in a header. -/
def headerHex (n : Nat) : String := "0x" ++ paddedHex 2 n

/-- The definition of a constant. -/
def defineLine (name value : String) : String := "#define " ++ name ++ " " ++ value

namespace RegisterEntry

/-- The lines of a parameter: its size, then a constant for each element. -/
def headerLines (stem : String) (e : RegisterEntry) : Fallible (List String) := do
  let words ← e.words
  return ["", s!"/* {e.name}: {words} word(s) of {e.elem.bits} bit(s) */"]
    ++ e.elements.map fun (address, name) =>
        defineLine (stem ++ "_" ++ macroName name ++ "_ADDR") (headerHex address)

end RegisterEntry

namespace Netlist

/-- The constants every accelerator has. -/
def controlLines (stem : String) : List String :=
  [defineLine (stem ++ "_CTRL_ADDR") (headerHex controlAddress),
   defineLine (stem ++ "_CTRL_START") "0x1",
   defineLine (stem ++ "_CTRL_CLEAR_DONE") "0x2",
   defineLine (stem ++ "_STATUS_ADDR") (headerHex statusAddress),
   defineLine (stem ++ "_STATUS_RUN") "0x1"]

/-- The header of a design. -/
def registerHeader (n : Netlist) : Fallible String := do
  let stem := macroName n.name
  let sentinel := stem ++ "_REGS_H"
  let parameters ← n.registers.entries.mapM (RegisterEntry.headerLines stem)
  return endedLines
    (["#ifndef " ++ sentinel, "#define " ++ sentinel, ""] ++ controlLines stem
      ++ parameters.flatten ++ ["", "#endif"])

end Netlist

end StencilRtl
