import StencilRtl.Rtl.Phrase

/-!
# Hardware expressions

The expressions of the hardware language, as data.

Generated modules are built from these and not from text, so that what a module
does can be said of the same object that is printed. An expression is printed
by folding the forms of `Rtl.Phrase` over it.

Indexing comes in four forms: an element of a memory, a single bit, a range of
bits between constants, and a field of constant width that starts at a constant
bit or at a computed multiple of its width.

## Main definitions

* `Rtl.Operator`, `Rtl.Expr`: Operators and expressions.
* `Rtl.Expr.text`: The printed form of an expression.
* `Rtl.Expr.and`, `Rtl.Expr.equal`, `Rtl.Expr.bit`: Common combinations.
-/

namespace StencilRtl

namespace Rtl

/-- Operators written between two operands. -/
inductive Operator where
  | add | sub | mul | div | mod
  | eq | ne | lt | le | gt | ge
  | logicalAnd | logicalOr
  | bitAnd | bitOr | bitXor
  | shiftLeft | shiftRight
  /-- A right shift that copies the sign. -/
  | shiftRightSigned
  deriving DecidableEq, Repr, Inhabited

namespace Operator

/-- The symbol of an operator. -/
def symbol : Operator → String
  | .add => "+"
  | .sub => "-"
  | .mul => "*"
  | .div => "/"
  | .mod => "%"
  | .eq => "=="
  | .ne => "!="
  | .lt => "<"
  | .le => "<="
  | .gt => ">"
  | .ge => ">="
  | .logicalAnd => "&&"
  | .logicalOr => "||"
  | .bitAnd => "&"
  | .bitOr => "|"
  | .bitXor => "^"
  | .shiftLeft => "<<"
  | .shiftRight => ">>"
  | .shiftRightSigned => ">>>"

end Operator

/-- Expressions of the hardware language. -/
inductive Expr where
  /-- A signal or register. -/
  | ref (name : String)
  /-- A sized literal. -/
  | literal (width value : Nat)
  /-- A sized signed literal. -/
  | signedLiteral (width : Nat) (value : Int)
  /-- A plain decimal number. -/
  | number (value : Int)
  /-- The complement of every bit. -/
  | not (a : Expr)
  /-- Whether the operand is zero. -/
  | isZero (a : Expr)
  /-- Arithmetic negation. -/
  | negate (a : Expr)
  | binary (operator : Operator) (a b : Expr)
  /-- The conjunction of all terms. -/
  | all (terms : List Expr)
  /-- The disjunction of all terms. -/
  | any (terms : List Expr)
  | mux (condition ifTrue ifFalse : Expr)
  /-- Parts put together, the first one in the low bits. -/
  | concat (parts : List Expr)
  /-- An element of a memory. -/
  | element (memory : String) (index : Expr)
  /-- One bit. -/
  | bitAt (base : Expr) (index : Nat)
  /-- The bits from `low` to `high`, both included. -/
  | range (base : Expr) (high low : Nat)
  /-- `width` bits from the bit at `low` upwards. -/
  | part (base : Expr) (low width : Nat)
  /-- The field of `width` bits with number `index`, counting from the low
      end. -/
  | field (base index : Expr) (width : Nat)
  /-- The operand read as a signed number. -/
  | signed (a : Expr)
  /-- The operand read as an unsigned number. -/
  | unsigned (a : Expr)
  deriving BEq, Repr, Inhabited

namespace Expr

mutual

/-- The printed form of an expression. -/
def text : Expr → String
  | .ref name => name
  | .literal width value => Phrase.literal width value
  | .signedLiteral width value =>
      if value < 0 then s!"(-{width}'sd{value.natAbs})" else s!"{width}'sd{value}"
  | .number value => toString value
  | .not a => Phrase.not a.text
  | .isZero a => "(!" ++ a.text ++ ")"
  | .negate a => "(-" ++ a.text ++ ")"
  | .binary operator a b => Phrase.binary a.text operator.symbol b.text
  | .all terms => Phrase.all (texts terms)
  | .any terms => Phrase.any (texts terms)
  | .mux condition ifTrue ifFalse => Phrase.mux condition.text ifTrue.text ifFalse.text
  | .concat parts => Phrase.concat (texts parts)
  | .element memory index => memory ++ "[" ++ index.text ++ "]"
  | .bitAt base index => base.text ++ s!"[{index}]"
  | .range base high low => base.text ++ s!"[{high}:{low}]"
  | .part base low width => Phrase.part base.text (toString low) width
  | .field base index width => Phrase.part base.text (index.text ++ s!" * {width}") width
  | .signed a => "$signed(" ++ a.text ++ ")"
  | .unsigned a => "$unsigned(" ++ a.text ++ ")"

/-- The printed forms of a list of expressions. -/
def texts : List Expr → List String
  | [] => []
  | e :: rest => e.text :: texts rest

end

/-- A literal of one bit. -/
def bit (value : Bool) : Expr := .literal 1 (if value then 1 else 0)

/-- The conjunction of two terms. -/
def and (a b : Expr) : Expr := .all [a, b]

/-- The disjunction of two terms. -/
def or (a b : Expr) : Expr := .any [a, b]

/-- Equality. -/
def equal (a b : Expr) : Expr := .binary .eq a b

/-- Whether a signal has a given value, compared in `width` bits. -/
def hasValue (signal : String) (width value : Nat) : Expr :=
  equal (.ref signal) (.literal width value)

/-- A signal plus a constant of `width` bits. -/
def plus (signal : String) (width value : Nat) : Expr :=
  .binary .add (.ref signal) (.literal width value)

/-- The signals of a list of names. -/
def refs (names : List String) : List Expr := names.map .ref

end Expr

end Rtl

end StencilRtl
