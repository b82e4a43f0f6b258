import StencilRtl.Decimal.Binary64
import StencilRtl.Kernel.Type

/-!
# Kernel expressions

The pure expressions a kernel computes with.

Expressions carry the types their producer gave them and are not type checked.
Only some of them can become hardware; the others are representable so that
they can be refused by name.

## Main definitions

* `BinaryOp`, `CallType`, `Expr`: Operators, kinds of calls and expressions.
* `Expr.type`: The type of the value an expression produces.
* `Expr.constant?`: The value of an integer constant.
* `Expr.nodes`: An expression and everything inside it, in reading order.
* `Expr.label`: What a node is, in a word or two.
-/

namespace StencilRtl

/-- Binary operators. -/
inductive BinaryOp where
  | add | sub | mul | div | mod | min | max
  | eq | ne | lt | le | gt | ge
  | and | or
  deriving DecidableEq, Repr, Inhabited

namespace BinaryOp

/-- All operators. -/
def all : List BinaryOp :=
  [.add, .sub, .mul, .div, .mod, .min, .max, .eq, .ne, .lt, .le, .gt, .ge, .and, .or]

/-- The name of an operator. -/
def text : BinaryOp → String
  | .add => "Add"
  | .sub => "Sub"
  | .mul => "Mul"
  | .div => "Div"
  | .mod => "Mod"
  | .min => "Min"
  | .max => "Max"
  | .eq => "EQ"
  | .ne => "NE"
  | .lt => "LT"
  | .le => "LE"
  | .gt => "GT"
  | .ge => "GE"
  | .and => "And"
  | .or => "Or"

/-- Comparisons and the logical connectives produce a single bit. -/
def isComparison : BinaryOp → Bool
  | .eq | .ne | .lt | .le | .gt | .ge | .and | .or => true
  | .add | .sub | .mul | .div | .mod | .min | .max => false

end BinaryOp

/-- How a call is resolved. -/
inductive CallType where
  /-- A built-in operation. -/
  | intrinsic
  /-- An access to a realized buffer. -/
  | access
  /-- A call into foreign code. -/
  | foreign
  deriving DecidableEq, Repr, Inhabited

namespace CallType

/-- All kinds of calls. -/
def all : List CallType := [.intrinsic, .access, .foreign]

/-- The name of a kind of call. -/
def text : CallType → String
  | .intrinsic => "Intrinsic"
  | .access => "Halide"
  | .foreign => "Extern"

end CallType

/-- Pure expressions. -/
inductive Expr where
  | intImm (type : ScalarType) (value : Int64)
  | uintImm (type : ScalarType) (value : UInt64)
  | floatImm (type : ScalarType) (value : Binary64)
  | textImm (value : String)
  | var (type : ScalarType) (name : String)
  | cast (type : ScalarType) (value : Expr)
  | binary (op : BinaryOp) (a b : Expr)
  | not (a : Expr)
  | select (condition ifTrue ifFalse : Expr)
  | letIn (name : String) (value body : Expr)
  | call (type : ScalarType) (name : String) (args : List Expr) (callType : CallType)
  | load (type : ScalarType) (name : String) (index : Expr)
  deriving Repr, Inhabited

namespace Expr

mutual

/-- Whether two expressions are the same. -/
def same : Expr → Expr → Bool
  | .intImm t v, .intImm t' v' => t = t' && v = v'
  | .uintImm t v, .uintImm t' v' => t = t' && v = v'
  | .floatImm t v, .floatImm t' v' => t = t' && v = v'
  | .textImm v, .textImm v' => v = v'
  | .var t n, .var t' n' => t = t' && n = n'
  | .cast t v, .cast t' v' => t = t' && same v v'
  | .binary op a b, .binary op' a' b' => op = op' && same a a' && same b b'
  | .not a, .not a' => same a a'
  | .select c t f, .select c' t' f' => same c c' && same t t' && same f f'
  | .letIn n v b, .letIn n' v' b' => n = n' && same v v' && same b b'
  | .call t n as k, .call t' n' as' k' => t = t' && n = n' && sameList as as' && k = k'
  | .load t n i, .load t' n' i' => t = t' && n = n' && same i i'
  | _, _ => false

/-- Whether two lists hold the same expressions. -/
def sameList : List Expr → List Expr → Bool
  | [], [] => true
  | a :: as, b :: bs => same a b && sameList as bs
  | _, _ => false

end

mutual

theorem same_refl : ∀ e : Expr, same e e = true
  | .intImm _ _ => by simp [same]
  | .uintImm _ _ => by simp [same]
  | .floatImm _ _ => by simp [same]
  | .textImm _ => by simp [same]
  | .var _ _ => by simp [same]
  | .cast _ v => by simp [same, same_refl v]
  | .binary _ a b => by simp [same, same_refl a, same_refl b]
  | .not a => by simp [same, same_refl a]
  | .select c t f => by simp [same, same_refl c, same_refl t, same_refl f]
  | .letIn _ v b => by simp [same, same_refl v, same_refl b]
  | .call _ _ as _ => by simp [same, sameList_refl as]
  | .load _ _ i => by simp [same, same_refl i]

theorem sameList_refl : ∀ es : List Expr, sameList es es = true
  | [] => rfl
  | e :: es => by simp [sameList, same_refl e, sameList_refl es]

end

mutual

theorem eq_of_same : ∀ a b : Expr, same a b = true → a = b
  | .intImm _ _, b, h => by cases b <;> simp_all [same]
  | .uintImm _ _, b, h => by cases b <;> simp_all [same]
  | .floatImm _ _, b, h => by cases b <;> simp_all [same]
  | .textImm _, b, h => by cases b <;> simp_all [same]
  | .var _ _, b, h => by cases b <;> simp_all [same]
  | .cast _ v, b, h => by
      cases b <;> simp [same] at h
      exact congr (congrArg _ h.1) (eq_of_same v _ h.2)
  | .binary _ x y, b, h => by
      cases b <;> simp [same] at h
      obtain ⟨⟨rfl, hx⟩, hy⟩ := h
      rw [eq_of_same x _ hx, eq_of_same y _ hy]
  | .not x, b, h => by
      cases b <;> simp [same] at h
      rw [eq_of_same x _ h]
  | .select c t f, b, h => by
      cases b <;> simp [same] at h
      rw [eq_of_same c _ h.1.1, eq_of_same t _ h.1.2, eq_of_same f _ h.2]
  | .letIn _ v x, b, h => by
      cases b <;> simp [same] at h
      obtain ⟨⟨rfl, hv⟩, hx⟩ := h
      rw [eq_of_same v _ hv, eq_of_same x _ hx]
  | .call _ _ as _, b, h => by
      cases b <;> simp [same] at h
      obtain ⟨⟨⟨rfl, rfl⟩, has⟩, rfl⟩ := h
      rw [eq_of_sameList as _ has]
  | .load _ _ i, b, h => by
      cases b <;> simp [same] at h
      obtain ⟨⟨rfl, rfl⟩, hi⟩ := h
      rw [eq_of_same i _ hi]

theorem eq_of_sameList : ∀ as bs : List Expr, sameList as bs = true → as = bs
  | [], bs, h => by cases bs <;> simp_all [sameList]
  | a :: as, bs, h => by
      cases bs <;> simp [sameList] at h
      rw [eq_of_same a _ h.1, eq_of_sameList as _ h.2]

end

instance : DecidableEq Expr := fun a b =>
  if h : same a b = true then .isTrue (eq_of_same a b h)
  else .isFalse fun e => h (e ▸ same_refl a)

/-- The type of the value an expression produces. Texts appear only as
    arguments of calls and have the type of a bit. -/
def type : Expr → ScalarType
  | .intImm t _ => t
  | .uintImm t _ => t
  | .floatImm t _ => t
  | .textImm _ => .bit
  | .var t _ => t
  | .cast t _ => t
  | .binary op a _ => if op.isComparison then .bit else a.type
  | .not _ => .bit
  | .select _ ifTrue _ => ifTrue.type
  | .letIn _ _ body => body.type
  | .call t _ _ _ => t
  | .load t _ _ => t

/-- The value of an integer constant in the range of signed words. -/
def constant? : Expr → Option Int
  | .intImm _ value => some value.toInt
  | .uintImm _ value => if 2 * value.toNat < UInt64.size then some value.toNat else none
  | _ => none

/-- The name of a variable. -/
def var? : Expr → Option String
  | .var _ name => some name
  | _ => none

/-- The value of a text constant. -/
def text? : Expr → Option String
  | .textImm value => some value
  | _ => none

mutual

/-- An expression and everything inside it, in reading order. -/
def nodes : Expr → List Expr
  | e@(.intImm _ _) => [e]
  | e@(.uintImm _ _) => [e]
  | e@(.floatImm _ _) => [e]
  | e@(.textImm _) => [e]
  | e@(.var _ _) => [e]
  | e@(.cast _ value) => e :: value.nodes
  | e@(.binary _ a b) => e :: (a.nodes ++ b.nodes)
  | e@(.not a) => e :: a.nodes
  | e@(.select condition ifTrue ifFalse) =>
      e :: (condition.nodes ++ ifTrue.nodes ++ ifFalse.nodes)
  | e@(.letIn _ value body) => e :: (value.nodes ++ body.nodes)
  | e@(.call _ _ args _) => e :: nodesOfList args
  | e@(.load _ _ index) => e :: index.nodes

/-- Everything inside a list of expressions, in reading order. -/
def nodesOfList : List Expr → List Expr
  | [] => []
  | e :: rest => e.nodes ++ nodesOfList rest

end

/-- What an expression is, with the name it carries, if any. -/
def label : Expr → String
  | .intImm _ _ => "IntImm"
  | .uintImm _ _ => "UIntImm"
  | .floatImm _ _ => "FloatImm"
  | .textImm _ => "StringImm"
  | .var _ name => s!"Var {name}"
  | .cast _ _ => "Cast"
  | .binary op _ _ => s!"Binary {op.text}"
  | .not _ => "Not"
  | .select _ _ _ => "Select"
  | .letIn name _ _ => s!"Let {name}"
  | .call _ name _ _ => s!"Call {name}"
  | .load _ name _ => s!"Load {name}"

/-- Whether an expression is a call of `name`. -/
def isCallOf (name : String) : Expr → Bool
  | .call _ called _ _ => called = name
  | _ => false

end Expr

end StencilRtl
