import StencilRtl.Kernel.Basic

/-!
# Building kernels by hand

Short names for the parts kernels are commonly put together from, with the
types a scheduling compiler gives them: loop indices and stream operations have
32-bit signed type, buffer operands a single bit.

## Main definitions

* `Expr.ofInt`, `Expr.index`, `Expr.stencil`: Common expressions.
* `Stmt.readStream`, `Stmt.writeStream`, `Stmt.lineBuffer`, `Stmt.dispatchStream`:
  The stream operations.
* `Argument.stream`, `Argument.scalar`, `Argument.stencil`: The kinds of
  arguments.
-/

namespace StencilRtl

namespace Expr

/-- A constant of the type of loop indices. -/
def ofInt (value : Int64) : Expr := .intImm (.int 32) value

/-- An unsigned constant. -/
def ofWord (bits : UInt32) (value : UInt64) : Expr := .uintImm (.uint bits) value

/-- A loop index. -/
def index (name : String) : Expr := .var (.int 32) name

/-- A buffer as an operand of a stream operation. -/
def buffer (name : String) : Expr := .var (.uint 1) name

/-- A call of a built-in operation. -/
def intrinsic (name : String) (type : ScalarType) (args : List Expr) : Expr :=
  .call type name args .intrinsic

/-- An element of a realized stencil. -/
def stencil (name : String) (type : ScalarType) (args : List Expr) : Expr :=
  .call type name args .access

end Expr

/-- One dimension of a dispatched stream. -/
structure DispatchDimension where
  size : Int64
  step : Int64
  storeExtent : Int64

/-- One consumer of a dispatched stream, with an offset and an extent for each
    dimension. -/
structure DispatchTarget where
  name : String
  depth : Int64
  box : List (Int64 × Int64)

namespace Stmt

/-- An evaluated stream operation. -/
def streamOperation (name : String) (args : List Expr) : Stmt :=
  .evaluate (.intrinsic name (.int 32) args)

/-- The producer of a buffer. -/
def produce (name : String) (body : Stmt) : Stmt := .producer name true body

/-- A serial loop with constant bounds. -/
def forLoop (name : String) (min extent : Int64) (body : Stmt) : Stmt :=
  .loop name (.ofInt min) (.ofInt extent) .serial body

/-- A buffer of one value type, starting at zero in every dimension. -/
def realizeOver (name : String) (type : ScalarType) (extents : List Int64) (body : Stmt) :
    Stmt :=
  .realize name [type] (extents.map .upTo) body

/-- A store of one value. -/
def provideOne (name : String) (value : Expr) (args : List Expr) : Stmt :=
  .provide name [value] args

/-- A conditional without an else branch. -/
def ifThen (condition : Expr) (thenCase : Stmt) : Stmt := .branch condition thenCase none

/-- Reading a window of a stream, possibly as one of several consumers. -/
def readStream (stream stencil : String) (consumer : Option String) : Stmt :=
  streamOperation "read_stream"
    ([.buffer stream, .buffer stencil] ++ (consumer.map Expr.textImm).toList)

/-- Writing a window to a stream. A write to a kernel output lists its loops
    with their largest values. -/
def writeStream (stream stencil : String) (loops : List (String × Int64)) : Stmt :=
  streamOperation "write_stream"
    ([.buffer stream, .buffer stencil]
      ++ loops.flatMap fun (name, max) => [.textImm name, .ofInt max])

/-- A line buffer between two streams. -/
def lineBuffer (input output : String) (storeExtents : List Int64) : Stmt :=
  streamOperation "linebuffer"
    ([.buffer input, .buffer output] ++ storeExtents.map Expr.ofInt)

/-- Dispatching a stream to consumers. -/
def dispatchStream (stream : String) (dimensions : List DispatchDimension)
    (consumers : List DispatchTarget) : Stmt :=
  streamOperation "dispatch_stream"
    ([.buffer stream, .ofInt (Int64.ofInt dimensions.length)]
      ++ (dimensions.flatMap fun d => [.ofInt d.size, .ofInt d.step, .ofInt d.storeExtent])
      ++ [.ofInt (Int64.ofInt consumers.length)]
      ++ consumers.flatMap fun c =>
          [.textImm c.name, .ofInt c.depth]
            ++ c.box.flatMap fun (offset, extent) => [.ofInt offset, .ofInt extent])

end Stmt

namespace Argument

/-- A stream on the external bus. -/
def stream (name : String) (elem : ScalarType) (extents : List Int64)
    (storeExtents : List UInt64) (isOutput : Bool) : Argument :=
  ⟨name, true, isOutput, ⟨.busStream, elem, extents.map .upTo, 1, storeExtents⟩⟩

/-- A scalar parameter. -/
def scalar (name : String) (elem : ScalarType) : Argument :=
  ⟨name, false, false, ⟨.scalar, elem, [], 1, []⟩⟩

/-- A stencil parameter. -/
def stencil (name : String) (elem : ScalarType) (extents : List Int64) : Argument :=
  ⟨name, false, false, ⟨.stencil, elem, extents.map .upTo, 1, []⟩⟩

end Argument

end StencilRtl
