import StencilRtl.Kernel.Basic
import StencilRtl.Word

/-!
# Shapes of wires

What travels on a wire, and which signals implement it.

A wire carries a window of elements. Windows are laid out flat with dimension 0
varying fastest, so that the element at given coordinates is found by
`flatIndex`. A scalar or a stencil is a bare vector of bits; a stream adds a
handshake, and its external form adds a mark on the last word of a frame.

The store extents of a stream describe the image that the windows are taken
from. They steer counters and line buffers but not the width of any wire.

## Main definitions

* `ElemType`, `WireKind`, `Direction`: Elements, containers and directions.
* `Shape`: What a wire carries.
* `Shape.signals`: The signals of a port.
* `Shape.ofStencilType`: The shape of a kernel argument.
* `flatIndex`: Where an element lies in a window.
-/

namespace StencilRtl

/-- The type of one element on a wire. -/
structure ElemType where
  bits : Nat
  signed : Bool
  deriving DecidableEq, Repr, Inhabited

namespace ElemType

/-- Unsigned elements. -/
def uint (bits : Nat) : ElemType := ⟨bits, false⟩

/-- The element type of a scalar type; there is none for floating point. -/
def ofScalar (t : ScalarType) : Fallible ElemType :=
  if t.isFloat then unsupported (.floatType t.text) else .ok ⟨t.width, t.isSigned⟩

end ElemType

/-- Containers of elements on a wire. -/
inductive WireKind where
  | scalar
  /-- An array without a handshake. -/
  | stencil
  /-- An array with a value, valid and ready handshake. -/
  | stream
  /-- The form of a stream on the external bus. -/
  | busStream
  deriving DecidableEq, Repr, Inhabited

namespace WireKind

/-- All containers. -/
def all : List WireKind := [.scalar, .stencil, .stream, .busStream]

/-- The name of a container. -/
def text : WireKind → String
  | .scalar => "Scalar"
  | .stencil => "Stencil"
  | .stream => "Stream"
  | .busStream => "ExternalStream"

/-- The container of a kernel argument on a wire. -/
def ofStencilKind : StencilKind → WireKind
  | .scalar => .scalar
  | .stencil => .stencil
  | .stream => .stream
  | .busStream => .busStream

end WireKind

/-- The direction of a port. -/
inductive Direction where
  | input
  | output
  deriving DecidableEq, Repr, Inhabited

namespace Direction

/-- The other direction. -/
def flip : Direction → Direction
  | .input => .output
  | .output => .input

/-- The name of a direction. -/
def text : Direction → String
  | .input => "Input"
  | .output => "Output"

end Direction

/-- One flat signal of a port. `backward` marks a signal that travels against
    the stream. -/
structure Signal where
  name : String
  width : Nat
  direction : Direction
  backward : Bool
  deriving DecidableEq, Repr, Inhabited

/-- Where the element at coordinates `index` lies in a window of shape
    `extents`, dimension 0 varying fastest. Coordinates and extents are paired
    as far as both reach. -/
def flatIndex (extents index : List Nat) : Fallible Nat :=
  (index.zip extents).foldrM (fun (i, e) acc => do Word.add (← Word.mul acc e) i) 0

/-- What a wire carries. -/
structure Shape where
  kind : WireKind
  elem : ElemType
  extents : List Nat
  storeExtents : List Nat
  fifoDepth : Nat
  deriving DecidableEq, Repr, Inhabited

namespace Shape

/-- A single element. -/
def scalar (elem : ElemType) : Shape := ⟨.scalar, elem, [], [], 0⟩

/-- An unsigned number. -/
def uint (bits : Nat) : Shape := .scalar (.uint bits)

/-- A single bit. -/
def bit : Shape := .uint 1

/-- An array without a handshake. -/
def stencil (elem : ElemType) (extents : List Nat) : Shape := ⟨.stencil, elem, extents, [], 0⟩

/-- A stream of windows over an image that is no larger than a window. -/
def stream (elem : ElemType) (extents : List Nat) : Shape :=
  ⟨.stream, elem, extents, extents, 1⟩

/-- Whether there is a handshake. -/
def isStream (s : Shape) : Bool := s.kind = .stream || s.kind = .busStream

/-- The number of dimensions. -/
def rank (s : Shape) : Nat := s.extents.length

/-- The number of elements in a window. -/
def elems (s : Shape) : Fallible Nat := Word.product s.extents

/-- The number of bits in a window. -/
def dataWidth (s : Shape) : Fallible Nat := do
  Word.mul (← s.elems) s.elem.bits

/-- The same window in another container. -/
def withKind (s : Shape) (kind : WireKind) : Shape := { s with kind }

/-- The same windows taken from another image. -/
def withStoreExtents (s : Shape) (storeExtents : List Nat) : Shape := { s with storeExtents }

/-- The same window without its handshake. -/
def asStencil (s : Shape) : Shape :=
  { s with kind := .stencil, storeExtents := [], fifoDepth := 0 }

/-- Numbers joined by an `x`, the form in which shapes appear in names. -/
def joined (extents : List Nat) : String :=
  String.intercalate "x" (extents.map toString)

/-- The part of a module's name that tells its element and window, such as
    `UInt8_3x3`. -/
def typeName (s : Shape) : String :=
  (if s.elem.signed then "S" else "U") ++ "Int" ++ toString s.elem.bits
    ++ (if s.extents = [] then "" else "_" ++ joined s.extents)

/-- The name of a shape, with its container. -/
def text (s : Shape) : String :=
  match s.kind with
  | .scalar => s.typeName
  | .stencil => s.typeName
  | .stream => "Stream<" ++ s.typeName ++ ">"
  | .busStream => "AxiStream<" ++ s.typeName ++ ">"

/-- The first store extent that does not cover its window. -/
def uncovered? (s : Shape) : Option (Nat × Nat) :=
  (s.storeExtents.zip s.extents).find? fun (store, extent) => store < extent

/-- Every extent is positive and the image of a stream covers its windows. -/
def validate (s : Shape) : Fallible Unit :=
  if s.elem.bits = 0 then malformed .zeroWidthElement
  else if 0 ∈ s.extents then malformed (.zeroExtent 0 s.typeName)
  else if s.isStream then
    if s.storeExtents.length ≠ s.extents.length then
      malformed (.storeRank s.storeExtents s.typeName)
    else
      match s.uncovered? with
      | some (store, extent) => malformed (.storeTooSmall store extent s.typeName)
      | none => .ok ()
  else .ok ()

/-- The extent of one bound of an argument. Bounds start at zero and are not
    empty. -/
def extentOfBound (b : Interval) : Fallible Nat :=
  if b.min ≠ 0 then unsupported (.boundMinimum b.min.toInt)
  else if b.extent ≤ 0 then unsupported (.boundExtent b.extent.toInt)
  else .ok b.extent.toInt.toNat

/-- The shape of a kernel argument. -/
def ofStencilType (t : StencilType) : Fallible Shape := do
  let elem ← ElemType.ofScalar t.elem
  let extents ← t.bounds.mapM extentOfBound
  let storeExtents :=
    if t.storeExtents = [] then extents else t.storeExtents.map UInt64.toNat
  let shape : Shape :=
    ⟨.ofStencilKind t.kind, elem, extents, storeExtents, t.depth.toNat⟩
  shape.validate
  return shape

/-- The signals implementing a port called `name`. -/
def signals (s : Shape) (name : String) (direction : Direction) : Fallible (List Signal) := do
  let width ← s.dataWidth
  let forward (ending : String) (width : Nat) : Signal := ⟨name ++ ending, width, direction, false⟩
  let backward (ending : String) : Signal := ⟨name ++ ending, 1, direction.flip, true⟩
  return match s.kind with
    | .scalar => [forward "" width]
    | .stencil => [forward "" width]
    | .stream => [forward "_value" width, forward "_valid" 1, backward "_ready"]
    | .busStream =>
        [forward "_TDATA" width, forward "_TVALID" 1, backward "_TREADY", forward "_TLAST" 1]

end Shape

end StencilRtl
