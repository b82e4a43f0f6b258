import StencilRtl.Kernel.Stmt

/-!
# Kernels

A kernel is one accelerator: the interface it shows to its surroundings and the
body that computes its results.

## Main definitions

* `StencilKind`, `StencilType`: The shape of an argument.
* `Argument`: A stream, a scalar or a stencil the kernel is given.
* `Kernel`: An accelerator.
-/

namespace StencilRtl

/-- Containers of elements. -/
inductive StencilKind where
  | scalar
  | stencil
  | stream
  /-- A stream on the external bus. -/
  | busStream
  deriving DecidableEq, Repr, Inhabited

namespace StencilKind

/-- All containers. -/
def all : List StencilKind := [.scalar, .stencil, .stream, .busStream]

/-- The name of a container. -/
def text : StencilKind → String
  | .scalar => "Scalar"
  | .stencil => "Stencil"
  | .stream => "Stream"
  | .busStream => "AxiStream"

end StencilKind

/-- The shape of an argument. An empty `storeExtents` stands for the shape of
    the window. -/
structure StencilType where
  kind : StencilKind
  elem : ScalarType
  bounds : List Interval
  depth : UInt64
  storeExtents : List UInt64
  deriving DecidableEq, Repr, Inhabited

/-- A top-level argument. -/
structure Argument where
  name : String
  isStream : Bool
  isOutput : Bool
  stencilType : StencilType
  deriving DecidableEq, Repr, Inhabited

/-- One accelerator: its interface and the body that computes it. -/
structure Kernel where
  name : String
  args : List Argument
  body : Stmt
  deriving DecidableEq, Repr, Inhabited

end StencilRtl
