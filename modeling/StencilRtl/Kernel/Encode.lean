import StencilRtl.Json.Printer
import StencilRtl.Kernel.Basic

/-!
# Kernels as documents

The JSON document of a kernel. Every field is written, in the declared order,
and the tag of a variant comes first.

## Main definitions

* `Expr.toJson`, `Stmt.toJson`, `Kernel.toJson`: The documents.
* `Kernel.text`: The document of a kernel, laid out.
-/

namespace StencilRtl

/-- The document of a type. -/
def ScalarType.toJson (t : ScalarType) : Json :=
  .object [("code", .text t.code.text), ("bits", .nat t.width)]

/-- The document of an interval. -/
def Interval.toJson (r : Interval) : Json :=
  .object [("min", .int r.min.toInt), ("extent", .int r.extent.toInt)]

/-- The document of a variant: its tag, then its fields. -/
def Json.tagged (tag : String) (fields : List (String × Json)) : Json :=
  .object (("node", .text tag) :: fields)

namespace Expr

mutual

/-- The document of an expression. -/
def toJson : Expr → Json
  | .intImm t v => .tagged "IntImm" [("ty", t.toJson), ("value", .int v.toInt)]
  | .uintImm t v => .tagged "UIntImm" [("ty", t.toJson), ("value", .nat v.toNat)]
  | .floatImm t v => .tagged "FloatImm" [("ty", t.toJson), ("value", .real v)]
  | .textImm v => .tagged "StringImm" [("value", .text v)]
  | .var t n => .tagged "Var" [("ty", t.toJson), ("name", .text n)]
  | .cast t v => .tagged "Cast" [("ty", t.toJson), ("value", v.toJson)]
  | .binary op a b =>
      .tagged "Binary" [("op", .text op.text), ("a", a.toJson), ("b", b.toJson)]
  | .not a => .tagged "Not" [("a", a.toJson)]
  | .select c t f =>
      .tagged "Select"
        [("condition", c.toJson), ("true_value", t.toJson), ("false_value", f.toJson)]
  | .letIn n v b => .tagged "Let" [("name", .text n), ("value", v.toJson), ("body", b.toJson)]
  | .call t n args k =>
      .tagged "Call"
        [("ty", t.toJson), ("name", .text n), ("args", .list (listToJson args)),
         ("call_type", .text k.text)]
  | .load t n i => .tagged "Load" [("ty", t.toJson), ("name", .text n), ("index", i.toJson)]

/-- The documents of a list of expressions. -/
def listToJson : List Expr → List Json
  | [] => []
  | e :: rest => e.toJson :: listToJson rest

end

end Expr

namespace Stmt

mutual

/-- The document of a statement. -/
def toJson : Stmt → Json
  | .letIn n v b =>
      .tagged "LetStmt" [("name", .text n), ("value", v.toJson), ("body", b.toJson)]
  | .assert c m => .tagged "AssertStmt" [("condition", c.toJson), ("message", m.toJson)]
  | .producer n p b =>
      .tagged "ProducerConsumer"
        [("name", .text n), ("is_producer", .bool p), ("body", b.toJson)]
  | .loop n m e k b =>
      .tagged "For"
        [("name", .text n), ("min", m.toJson), ("extent", e.toJson),
         ("for_type", .text k.text), ("body", b.toJson)]
  | .provide n vs as =>
      .tagged "Provide"
        [("name", .text n), ("values", .list (Expr.listToJson vs)),
         ("args", .list (Expr.listToJson as))]
  | .realize n ts bs b =>
      .tagged "Realize"
        [("name", .text n), ("types", .list (ts.map ScalarType.toJson)),
         ("bounds", .list (bs.map Interval.toJson)), ("body", b.toJson)]
  | .block ss => .tagged "Block" [("stmts", .list (listToJson ss))]
  | .branch c t e =>
      .tagged "IfThenElse"
        [("condition", c.toJson), ("then_case", t.toJson), ("else_case", optionToJson e)]
  | .evaluate v => .tagged "Evaluate" [("value", v.toJson)]
  | .store n v i =>
      .tagged "Store" [("name", .text n), ("value", v.toJson), ("index", i.toJson)]
  | .allocate n t es b =>
      .tagged "Allocate"
        [("name", .text n), ("ty", t.toJson), ("extents", .list (Expr.listToJson es)),
         ("body", b.toJson)]
  | .free n => .tagged "Free" [("name", .text n)]

/-- The documents of a list of statements. -/
def listToJson : List Stmt → List Json
  | [] => []
  | s :: rest => s.toJson :: listToJson rest

/-- The document of an optional statement. -/
def optionToJson : Option Stmt → Json
  | none => .null
  | some s => s.toJson

end

end Stmt

/-- The document of a shape. -/
def StencilType.toJson (t : StencilType) : Json :=
  .object
    [("kind", .text t.kind.text), ("elem", t.elem.toJson),
     ("bounds", .list (t.bounds.map Interval.toJson)), ("depth", .nat t.depth.toNat),
     ("store_extents", .list (t.storeExtents.map fun e => .nat e.toNat))]

/-- The document of an argument. -/
def Argument.toJson (a : Argument) : Json :=
  .object
    [("name", .text a.name), ("is_stream", .bool a.isStream), ("is_output", .bool a.isOutput),
     ("stencil_type", a.stencilType.toJson)]

namespace Kernel

/-- The document of a kernel. -/
def toJson (k : Kernel) : Json :=
  .object
    [("name", .text k.name), ("args", .list (k.args.map Argument.toJson)),
     ("body", k.body.toJson)]

/-- The document of a kernel, laid out. -/
def text (k : Kernel) : String := k.toJson.pretty

end Kernel

end StencilRtl
