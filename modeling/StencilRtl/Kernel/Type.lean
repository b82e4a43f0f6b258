/-!
# Scalar types

The element types and index ranges a kernel is written with.

## Main definitions

* `ScalarType`: A category of numbers and a width in bits.
* `ScalarType.text`: Its name, such as `uint8`.
* `Interval`: A constant range of indices.
-/

namespace StencilRtl

/-- Categories of scalar elements. -/
inductive ScalarCode where
  | int
  | uint
  | float
  deriving DecidableEq, Repr, Inhabited

namespace ScalarCode

/-- The name of a category. -/
def text : ScalarCode → String
  | .int => "int"
  | .uint => "uint"
  | .float => "float"

/-- All categories. -/
def all : List ScalarCode := [.int, .uint, .float]

end ScalarCode

/-- The type of a scalar element. -/
structure ScalarType where
  code : ScalarCode
  bits : UInt32
  deriving DecidableEq, Repr, Inhabited

namespace ScalarType

/-- Signed integers of some width. -/
def int (bits : UInt32) : ScalarType := ⟨.int, bits⟩

/-- Unsigned integers of some width. -/
def uint (bits : UInt32) : ScalarType := ⟨.uint, bits⟩

/-- The type of comparisons: one bit. -/
def bit : ScalarType := .uint 1

/-- Whether the type is a floating point type. -/
def isFloat (t : ScalarType) : Bool := t.code = .float

/-- Whether the type is signed. Floating point types do not count. -/
def isSigned (t : ScalarType) : Bool := t.code = .int

/-- The width as a natural number. -/
def width (t : ScalarType) : Nat := t.bits.toNat

/-- The name of the type: its category and its width. -/
def text (t : ScalarType) : String := t.code.text ++ toString t.width

end ScalarType

/-- The indices from `min` up to, but not including, `min + extent`. -/
structure Interval where
  min : Int64
  extent : Int64
  deriving DecidableEq, Repr, Inhabited

namespace Interval

/-- The indices below `extent`. -/
def upTo (extent : Int64) : Interval := ⟨0, extent⟩

end Interval

end StencilRtl
