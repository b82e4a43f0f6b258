import StencilRtl.Kernel.StreamCall
import StencilRtl.Name
import StencilRtl.Netlist.StagePlan
import StencilRtl.Rtl.Module

/-!
# Lowering expressions

From the expressions of a kernel to those of the hardware language.

A kernel's stencil is a flat word in hardware, so an access becomes a field of
that word: at a constant bit if all coordinates are constants, which are checked
against the extents, or else at a computed place. Names bound inside an
expression are replaced by what they stand for. A conversion between widths has
no operator of its own; it becomes a wire of the target's width, to be declared
before the expression that uses it.

Signed values are marked where they are read. Loop counters stay unsigned
whatever type the kernel gives them.

## Main definitions

* `Scope`: The stencils and counters expressions can refer to.
* `CastWire`, `LoweringState`, `Lowering`: What is remembered while lowering.
* `Intrinsic`: The built-in operations on values.
* `Scope.locate`: Where an element lies.
* `Scope.lower`: The hardware expression of an expression.
-/

namespace StencilRtl

/-- The stencils and the loop counters that expressions can refer to. -/
structure Scope where
  stencils : List (String × Shape)
  counters : List String
  deriving Repr, Inhabited

/-- A wire standing in for a conversion. -/
structure CastWire where
  name : String
  width : Nat
  value : Rtl.Expr
  deriving Repr, Inhabited

/-- The names bound around the current expression, innermost first, the wires
    still to be declared, and the number of all wires so far. -/
structure LoweringState where
  bound : List (String × Rtl.Expr)
  pending : List CastWire
  castCount : Nat
  deriving Repr, Inhabited

namespace LoweringState

/-- Nothing bound and nothing to be declared. -/
def initial : LoweringState := ⟨[], [], 0⟩

/-- What a name stands for. -/
def value? (s : LoweringState) (name : String) : Option Rtl.Expr :=
  (s.bound.find? fun b => b.1 = name).map Prod.snd

/-- The state inside the scope of a name. -/
def bind (s : LoweringState) (name : String) (value : Rtl.Expr) : LoweringState :=
  { s with bound := (name, value) :: s.bound }

/-- The state outside the scope of the name bound last. -/
def unbind (s : LoweringState) : LoweringState := { s with bound := s.bound.tail }

end LoweringState

/-- A computation that lowers expressions. Its state survives a failure. -/
abbrev Lowering := ExceptT Failure (StateM LoweringState)

namespace Lowering

/-- Run a computation in the scope of a name. The name is forgotten afterwards,
    also after a failure. -/
def binding {α : Type} (name : String) (value : Rtl.Expr) (body : Lowering α) : Lowering α :=
  ExceptT.mk do
    modify fun s => s.bind name value
    let result ← body.run
    modify LoweringState.unbind
    return result

/-- A new wire for a conversion. Returns its name. -/
def castWire (width : Nat) (value : Rtl.Expr) : Lowering String := do
  let count := (← get).castCount
  let name := s!"cast_{count}"
  modify fun s =>
    { s with pending := s.pending ++ [⟨name, width, value⟩], castCount := s.castCount + 1 }
  return name

/-- The wires to be declared, which then no longer are. -/
def takeCasts : Lowering (List CastWire) := do
  let pending := (← get).pending
  modify fun s => { s with pending := [] }
  return pending

end Lowering

/-- Built-in operations on one value. -/
inductive UnaryIntrinsic where
  | abs
  | bitNot
  /-- The same bits read with another signedness. -/
  | reinterpret
  deriving DecidableEq, Repr, Inhabited

/-- Built-in operations on two values. -/
inductive BinaryIntrinsic where
  /-- The absolute difference. -/
  | difference
  | bitAnd
  | bitOr
  | bitXor
  | shiftLeft
  | shiftRight
  | quotient
  | remainder
  deriving DecidableEq, Repr, Inhabited

/-- Built-in operations on values. -/
inductive Intrinsic where
  | unary (op : UnaryIntrinsic)
  | binary (op : BinaryIntrinsic)
  deriving DecidableEq, Repr, Inhabited

namespace Intrinsic

/-- The operation called `name`. -/
def ofName? : String → Option Intrinsic
  | "absd" => some (.binary .difference)
  | "abs" => some (.unary .abs)
  | "bitwise_and" => some (.binary .bitAnd)
  | "bitwise_or" => some (.binary .bitOr)
  | "bitwise_xor" => some (.binary .bitXor)
  | "bitwise_not" => some (.unary .bitNot)
  | "shift_left" => some (.binary .shiftLeft)
  | "shift_right" => some (.binary .shiftRight)
  | "div_round_to_zero" => some (.binary .quotient)
  | "mod_round_to_zero" => some (.binary .remainder)
  | "reinterpret" => some (.unary .reinterpret)
  | _ => none

/-- The number of operands. -/
def arity : Intrinsic → Nat
  | .unary _ => 1
  | .binary _ => 2

end Intrinsic

/-- The expression of an operation on one value. `signed` tells the type of the
    result. -/
def UnaryIntrinsic.apply (signed : Bool) (a : Rtl.Expr) : UnaryIntrinsic → Rtl.Expr
  | .abs => .mux (.binary .lt a (.number 0)) (.negate a) a
  | .bitNot => .not a
  | .reinterpret => if signed then .signed a else .unsigned a

/-- The expression of an operation on two values. `signed` tells the type of the
    result. -/
def BinaryIntrinsic.apply (signed : Bool) (a b : Rtl.Expr) : BinaryIntrinsic → Rtl.Expr
  | .difference => .mux (.binary .lt a b) (.binary .sub b a) (.binary .sub a b)
  | .bitAnd => .binary .bitAnd a b
  | .bitOr => .binary .bitOr a b
  | .bitXor => .binary .bitXor a b
  | .shiftLeft => .binary .shiftLeft a b
  | .shiftRight => .binary (if signed then .shiftRightSigned else .shiftRight) a b
  | .quotient => .binary .div a b
  | .remainder => .binary .mod a b

/-- The expression of a binary operator. -/
def BinaryOp.apply (a b : Rtl.Expr) : BinaryOp → Rtl.Expr
  | .add => .binary .add a b
  | .sub => .binary .sub a b
  | .mul => .binary .mul a b
  | .div => .binary .div a b
  | .mod => .binary .mod a b
  | .min => .mux (.binary .lt a b) a b
  | .max => .mux (.binary .gt a b) a b
  | .eq => .binary .eq a b
  | .ne => .binary .ne a b
  | .lt => .binary .lt a b
  | .le => .binary .le a b
  | .gt => .binary .gt a b
  | .ge => .binary .ge a b
  | .and => .binary .logicalAnd a b
  | .or => .binary .logicalOr a b

/-- A value read with the signedness of its type. -/
def ScalarType.read (t : ScalarType) (value : Rtl.Expr) : Rtl.Expr :=
  if t.isSigned then .signed value else value

/-- The literal of an integer constant. Unless the type is signed, a negative
    value stands for the word it wraps to. -/
def ScalarType.intLiteral (t : ScalarType) (value : Int64) : Rtl.Expr :=
  if t.isSigned then .signedLiteral t.width value.toInt
  else .literal t.width value.toUInt64.toNat

/-- The place of an element in a stencil. -/
inductive Place where
  /-- A place known in advance. -/
  | fixed (flat : Nat)
  /-- A place to be computed in hardware. -/
  | computed (flat : Rtl.Expr)
  deriving Repr, Inhabited

/-- A stencil, the signal holding it, and a place in it. -/
structure Location where
  signal : String
  shape : Shape
  place : Place
  deriving Repr, Inhabited

namespace Location

/-- The element at a location. -/
def element (l : Location) : Fallible Rtl.Expr :=
  let bits := l.shape.elem.bits
  match l.place with
  | .fixed flat => do return .part (.ref l.signal) (← Word.mul flat bits) bits
  | .computed flat => .ok (.field (.ref l.signal) flat bits)

end Location

/-- Constant coordinates in a stencil, from dimension `d` on, each checked against
    its extent. -/
def checkedCoordinates (name : String) (d : Nat) : List (Int × Nat) → Fallible (List Nat)
  | [] => .ok []
  | (index, extent) :: rest =>
      if index < 0 ∨ (extent : Int) ≤ index then unsupported (.indexOutOfBounds index d name)
      else do return index.toNat :: (← checkedCoordinates name (d + 1) rest)

/-- The place of an element given by computed coordinates, dimension 0 varying
    fastest. -/
def computedPlace : List (Rtl.Expr × Nat) → Rtl.Expr
  | [] => .number 0
  | [(c, _)] => c
  | (c, extent) :: rest =>
      .binary .add c (.binary .mul (computedPlace rest) (.number extent))

namespace Scope

/-- The shape of a stencil. Of several with one name the last one counts. -/
def stencil? (s : Scope) (signal : String) : Option Shape :=
  (s.stencils.reverse.find? fun entry => entry.1 = signal).map Prod.snd

/-- The location of an element. `coordinates` lowers the coordinates in case they
    are not all constants. -/
def locate (s : Scope) (name : String) (args : List Expr)
    (coordinates : Lowering (List Rtl.Expr)) : Lowering Location := do
  let signal := printName name
  match s.stencil? signal with
  | none => undefinedName name "stencil"
  | some shape =>
      if args.length ≠ shape.rank then
        unsupported (.coordinateCount name shape.rank args.length)
      else
        match args.mapM Expr.constant? with
        | some index => do
            let coordinates ← checkedCoordinates name 0 (index.zip shape.extents)
            return ⟨signal, shape, .fixed (← flatIndex shape.extents coordinates)⟩
        | none => do
            let coordinates ← coordinates
            return ⟨signal, shape, .computed (computedPlace (coordinates.zip shape.extents))⟩

/-- A variable: what its name is bound to, a counter, or a signal. -/
def variableValue (s : Scope) (type : ScalarType) (name : String) : Lowering Rtl.Expr := do
  let signal := printName name
  match (← get).value? signal with
  | some value => return value
  | none => return if signal ∈ s.counters then .ref signal else type.read (.ref signal)

mutual

/-- The hardware expression of an expression. -/
def lower (s : Scope) : Expr → Lowering Rtl.Expr
  | .intImm type value => return type.intLiteral value
  | .uintImm type value => return .literal type.width value.toNat
  | .floatImm _ _ => unsupported .floatConstant
  | .textImm value => unsupported (.textValue value)
  | .var type name => s.variableValue type name
  | .cast type value => do
      if type.isFloat || value.type.isFloat then unsupported (.floatCast type.text)
      let inner ← lower s value
      return type.read (.ref (← Lowering.castWire type.width inner))
  | .binary op a b => do
      let a ← lower s a
      let b ← lower s b
      return op.apply a b
  | .not a => do return .isZero (← lower s a)
  | .select condition ifTrue ifFalse => do
      let condition ← lower s condition
      let ifTrue ← lower s ifTrue
      let ifFalse ← lower s ifFalse
      return .mux condition ifTrue ifFalse
  | .letIn name value body => do
      let value ← lower s value
      Lowering.binding (printName name) value (lower s body)
  | .call type name args callType => do
      if callType = .access || isStencilName name then
        let location ← s.locate name args (coordinates s args)
        return type.read (← location.element)
      else
        match Intrinsic.ofName? name with
        | none =>
            if name ∈ streamOperations then unsupported (.streamOperationValue name)
            else unsupported (.valueCall name)
        | some intrinsic =>
            if args.length ≠ intrinsic.arity then
              unsupported (.argumentCount name args.length intrinsic.arity)
            else
              match intrinsic, ← lowerAll s args with
              | .unary op, [a] => return op.apply type.isSigned a
              | .binary op, [a, b] => return op.apply type.isSigned a b
              | _, _ => unsupported (.argumentCount name args.length intrinsic.arity)
  | .load _ name _ => unsupported (.pointerLoad name)

/-- The hardware expressions of some expressions, in order. -/
def lowerAll (s : Scope) : List Expr → Lowering (List Rtl.Expr)
  | [] => return []
  | e :: rest => do
      let e ← lower s e
      return e :: (← lowerAll s rest)

/-- The hardware expressions of coordinates. Constants are plain numbers. -/
def coordinates (s : Scope) : List Expr → Lowering (List Rtl.Expr)
  | [] => return []
  | e :: rest => do
      let e ←
        match e.constant? with
        | some c => pure (.number c)
        | none => lower s e
      return e :: (← coordinates s rest)

end

end Scope

end StencilRtl
