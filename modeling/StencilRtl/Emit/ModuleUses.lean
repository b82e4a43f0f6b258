import StencilRtl.Hardware.Top
import StencilRtl.Json.Printer

/-!
# Uses of modules

Which modules the top module of a design instantiates, and how often.

## Main definitions

* `ModuleUse`: A module and its instances.
* `Netlist.moduleUses`: The modules in the order of their first instances.
* `Netlist.moduleUsesText`: The same as a document.
-/

namespace StencilRtl

/-- A module, the kind of its instances, and their names. -/
structure ModuleUse where
  moduleName : String
  kind : String
  instances : List String
  deriving DecidableEq, Repr, Inhabited

namespace ComponentKind

/-- The name of a kind of blocks. -/
def name : ComponentKind → String
  | .slaveInterface => "slave_if"
  | .adapter _ => "io"
  | .queue _ => "fifo"
  | .lineBuffer _ => "linebuffer"
  | .dispatch _ => "dispatch"
  | .stage _ => "pipeline"

end ComponentKind

namespace ModuleUse

/-- Add an instance of a module to some uses. -/
def record (moduleName : String) (c : Component) : List ModuleUse → List ModuleUse
  | [] => [⟨moduleName, c.kind.name, [c.instanceName]⟩]
  | use :: rest =>
      if use.moduleName = moduleName then
        { use with instances := use.instances ++ [c.instanceName] } :: rest
      else use :: record moduleName c rest

/-- The document of a use. -/
def toJson (u : ModuleUse) : Json :=
  .object
    [("module", .text u.moduleName), ("kind", .text u.kind),
     ("instances", .list (u.instances.map .text))]

end ModuleUse

namespace Netlist

/-- The modules instantiated by the top module. -/
def moduleUses (n : Netlist) : Making (List ModuleUse) :=
  n.components.zipIdx.foldlM (fun uses (c, index) => do
    return ModuleUse.record (← n.makeComponent index) c uses) []

/-- The modules instantiated by the top module, as a document. -/
def moduleUsesText (n : Netlist) : Making String := do
  return (Json.list ((← n.moduleUses).map ModuleUse.toJson)).pretty ++ "\n"

end Netlist

end StencilRtl
