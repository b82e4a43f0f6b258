import StencilRtl.Json.Reader
import StencilRtl.Json.Record
import StencilRtl.Kernel.Basic
import StencilRtl.Outcome

/-!
# Kernels from documents

Reading a kernel off its JSON document.

Expressions and statements nest as deep as the document does, so reading them is
bounded by its nesting. A whole document nests at most 127 levels deep around
and inside the body of its kernel, and every number in the body has to have a
value, whether or not it is looked at.

## Main definitions

* `Expr.ofJson?`, `Stmt.ofJson?`, `Kernel.ofJson?`: Reading documents.
* `Kernel.ofText`: Reading the text of a document.
-/

namespace StencilRtl

/-- A type. `inner` says that it stands inside an expression or statement. -/
def ScalarType.ofJson? (inner : Bool) (j : Json) : Option ScalarType := do
  match ← j.fields? ["code", "bits"] with
  | [code, bits] => do
      let name ← Json.required (Json.choice? inner (ScalarCode.all.map ScalarCode.text)) code
      let code ← ScalarCode.all.find? fun c => c.text = name
      return ⟨code, ← Json.required Json.word32? bits⟩
  | _ => none

/-- An interval. -/
def Interval.ofJson? (j : Json) : Option Interval := do
  match ← j.fields? ["min", "extent"] with
  | [min, extent] =>
      return ⟨← Json.required Json.signed64? min, ← Json.required Json.signed64? extent⟩
  | _ => none

/-- A binary operator. `inner` says that it stands inside an expression. -/
def BinaryOp.ofJson? (inner : Bool) (j : Json) : Option BinaryOp := do
  let name ← j.choice? inner (BinaryOp.all.map BinaryOp.text)
  BinaryOp.all.find? fun op => op.text = name

/-- A kind of call inside an expression. -/
def CallType.ofJson? (j : Json) : Option CallType := do
  let name ← j.choice? true (CallType.all.map CallType.text)
  CallType.all.find? fun k => k.text = name

/-- A loop annotation inside a statement. -/
def ForKind.ofJson? (j : Json) : Option ForKind := do
  let name ← j.choice? true (ForKind.all.map ForKind.text)
  ForKind.all.find? fun k => k.text = name

/-- A container of elements. -/
def StencilKind.ofJson? (j : Json) : Option StencilKind := do
  let name ← j.choice? false (StencilKind.all.map StencilKind.text)
  StencilKind.all.find? fun k => k.text = name

namespace Expr

/-- The tags of expressions. -/
def tags : List String :=
  ["IntImm", "UIntImm", "FloatImm", "StringImm", "Var", "Cast", "Binary", "Not", "Select",
   "Let", "Call", "Load"]

/-- The fields of the expressions with a given tag. -/
def fieldNames : String → List String
  | "IntImm" => ["ty", "value"]
  | "UIntImm" => ["ty", "value"]
  | "FloatImm" => ["ty", "value"]
  | "StringImm" => ["value"]
  | "Var" => ["ty", "name"]
  | "Cast" => ["ty", "value"]
  | "Binary" => ["op", "a", "b"]
  | "Not" => ["a"]
  | "Select" => ["condition", "true_value", "false_value"]
  | "Let" => ["name", "value", "body"]
  | "Call" => ["ty", "name", "args", "call_type"]
  | "Load" => ["ty", "name", "index"]
  | _ => []

/-- An expression nested less than `levels` deep. `inner` says that it stands
    inside another expression or statement. -/
def read? : Nat → Bool → Json → Option Expr
  | 0, _, _ => none
  | levels + 1, inner, j => do
      let (tag, record) ← j.variant? inner tags
      let type := Json.required (ScalarType.ofJson? true)
      let text := Json.required Json.text?
      let expr := Json.required (read? levels true)
      match tag, ← record.fields? (fieldNames tag) with
      | "IntImm", [t, v] => return .intImm (← type t) (← Json.required Json.signed64? v)
      | "UIntImm", [t, v] => return .uintImm (← type t) (← Json.required Json.word64? v)
      | "FloatImm", [t, v] => return .floatImm (← type t) (← Json.required Json.binary64? v)
      | "StringImm", [v] => return .textImm (← text v)
      | "Var", [t, n] => return .var (← type t) (← text n)
      | "Cast", [t, v] => return .cast (← type t) (← expr v)
      | "Binary", [op, a, b] =>
          return .binary (← Json.required (BinaryOp.ofJson? true) op) (← expr a) (← expr b)
      | "Not", [a] => return .not (← expr a)
      | "Select", [c, t, f] => return .select (← expr c) (← expr t) (← expr f)
      | "Let", [n, v, b] => return .letIn (← text n) (← expr v) (← expr b)
      | "Call", [t, n, args, k] =>
          return .call (← type t) (← text n)
            (← Json.required (Json.list? (read? levels true)) args)
            (← Json.optional .intrinsic CallType.ofJson? k)
      | "Load", [t, n, i] => return .load (← type t) (← text n) (← expr i)
      | _, _ => none

/-- An expression inside a statement. -/
def ofInnerJson? (j : Json) : Option Expr := read? (j.nesting + 1) true j

/-- An expression standing alone. -/
def ofJson? (j : Json) : Option Expr := read? (j.nesting + 1) false j

end Expr

namespace Stmt

/-- The tags of statements. -/
def tags : List String :=
  ["LetStmt", "AssertStmt", "ProducerConsumer", "For", "Provide", "Realize", "Block",
   "IfThenElse", "Evaluate", "Store", "Allocate", "Free"]

/-- The fields of the statements with a given tag. -/
def fieldNames : String → List String
  | "LetStmt" => ["name", "value", "body"]
  | "AssertStmt" => ["condition", "message"]
  | "ProducerConsumer" => ["name", "is_producer", "body"]
  | "For" => ["name", "min", "extent", "for_type", "body"]
  | "Provide" => ["name", "values", "args"]
  | "Realize" => ["name", "types", "bounds", "body"]
  | "Block" => ["stmts"]
  | "IfThenElse" => ["condition", "then_case", "else_case"]
  | "Evaluate" => ["value"]
  | "Store" => ["name", "value", "index"]
  | "Allocate" => ["name", "ty", "extents", "body"]
  | "Free" => ["name"]
  | _ => []

/-- A statement or nothing, which is written as null. -/
def orNull? (read : Json → Option Stmt) : Json → Option (Option Stmt)
  | .null => some none
  | j => (read j).map some

/-- A statement nested less than `levels` deep. `inner` says that it stands
    inside another statement. -/
def read? : Nat → Bool → Json → Option Stmt
  | 0, _, _ => none
  | levels + 1, inner, j => do
      let (tag, record) ← j.variant? inner tags
      let text := Json.required Json.text?
      let expr := Json.required Expr.ofInnerJson?
      let exprs := Json.required (Json.list? Expr.ofInnerJson?)
      let stmt := Json.required (read? levels true)
      match tag, ← record.fields? (fieldNames tag) with
      | "LetStmt", [n, v, b] => return .letIn (← text n) (← expr v) (← stmt b)
      | "AssertStmt", [c, m] => return .assert (← expr c) (← expr m)
      | "ProducerConsumer", [n, p, b] =>
          return .producer (← text n) (← Json.required Json.bool? p) (← stmt b)
      | "For", [n, m, e, k, b] =>
          return .loop (← text n) (← expr m) (← expr e)
            (← Json.optional .serial ForKind.ofJson? k) (← stmt b)
      | "Provide", [n, vs, as] => return .provide (← text n) (← exprs vs) (← exprs as)
      | "Realize", [n, ts, bs, b] =>
          return .realize (← text n)
            (← Json.required (Json.list? (ScalarType.ofJson? true)) ts)
            (← Json.required (Json.list? Interval.ofJson?) bs) (← stmt b)
      | "Block", [ss] =>
          return .block (← Json.required (Json.list? (read? levels true)) ss)
      | "IfThenElse", [c, t, e] =>
          return .branch (← expr c) (← stmt t)
            (← Json.optional none (orNull? (read? levels true)) e)
      | "Evaluate", [v] => return .evaluate (← expr v)
      | "Store", [n, v, i] => return .store (← text n) (← expr v) (← expr i)
      | "Allocate", [n, t, es, b] =>
          return .allocate (← text n) (← Json.required (ScalarType.ofJson? true) t)
            (← exprs es) (← stmt b)
      | "Free", [n] => return .free (← text n)
      | _, _ => none

/-- A statement standing alone. -/
def ofJson? (j : Json) : Option Stmt := read? (j.nesting + 1) false j

end Stmt

/-- The shape of an argument. -/
def StencilType.ofJson? (j : Json) : Option StencilType := do
  match ← j.fields? ["kind", "elem", "bounds", "depth", "store_extents"] with
  | [kind, elem, bounds, depth, storeExtents] =>
      return ⟨← Json.required StencilKind.ofJson? kind,
        ← Json.required (ScalarType.ofJson? false) elem,
        ← Json.optional [] (Json.list? Interval.ofJson?) bounds,
        ← Json.optional 1 Json.word64? depth,
        ← Json.optional [] (Json.list? Json.word64?) storeExtents⟩
  | _ => none

/-- An argument. -/
def Argument.ofJson? (j : Json) : Option Argument := do
  match ← j.fields? ["name", "is_stream", "is_output", "stencil_type"] with
  | [name, isStream, isOutput, stencilType] =>
      return ⟨← Json.required Json.text? name, ← Json.required Json.bool? isStream,
        ← Json.optional false Json.bool? isOutput,
        ← Json.required StencilType.ofJson? stencilType⟩
  | _ => none

namespace Kernel

/-- The deepest nesting of a document's lists and objects. -/
def deepestNesting : Nat := 127

/-- The body of a kernel, which stands one level inside the document. -/
def bodyOfJson? (j : Json) : Option Stmt :=
  if j.nesting + 1 ≤ deepestNesting && j.readable then Stmt.ofJson? j else none

/-- A kernel. -/
def ofJson? (j : Json) : Option Kernel := do
  match ← j.fields? ["name", "args", "body"] with
  | [name, args, body] =>
      return ⟨← Json.required Json.text? name,
        ← Json.required (Json.list? Argument.ofJson?) args, ← Json.required bodyOfJson? body⟩
  | _ => none

/-- The kernel described by the text of a document. -/
def ofText (text : String) : Fallible Kernel :=
  match (Json.ofText? text).bind ofJson? with
  | some kernel => .ok kernel
  | none => .error (.error (.parse "not the document of a kernel"))

end Kernel

end StencilRtl
