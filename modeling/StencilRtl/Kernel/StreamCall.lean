import StencilRtl.Geometry.Dispatch
import StencilRtl.Kernel.Expr
import StencilRtl.Name
import StencilRtl.Word

/-!
# Stream operations

What the built-in operations on streams ask for.

The operands of a stream operation are positional: buffers first, then texts and
constants. They are read from left to right, and the first operand that is not
what its place asks for decides the error. Names are turned into identifiers on
the way.

## Main definitions

* `Operands`, `Reading`: Operands read from left to right.
* `ReadStream`, `WriteStream`, `LineBufferCall`, `DispatchCall`: The operations.
-/

namespace StencilRtl

/-- The operands of a call that are still to be read. -/
structure Operands where
  call : String
  position : Nat
  rest : List Expr

/-- Reading of operands. -/
abbrev Reading := StateT Operands Fallible

namespace Operands

/-- All operands of a call. -/
def ofCall (call : String) (args : List Expr) : Operands := ⟨call, 0, args⟩

/-- The next operand together with its position. -/
def next : Reading (Nat × Expr) := do
  let o ← get
  match o.rest with
  | [] => unsupported (.malformedCall o.call (.missing o.position))
  | e :: rest => do
      set (⟨o.call, o.position + 1, rest⟩ : Operands)
      return (o.position, e)

/-- A buffer. -/
def buffer : Reading String := do
  let (position, e) ← next
  match e.var? with
  | some name => return name
  | none => unsupported (.malformedCall (← get).call (.notBuffer position))

/-- A text. -/
def text : Reading String := do
  let (position, e) ← next
  match e.text? with
  | some value => return value
  | none => unsupported (.malformedCall (← get).call (.notText position))

/-- A constant of at least `least`. -/
def atLeast (least : Int) : Reading Nat := do
  let (position, e) ← next
  match e.constant? with
  | none => unsupported (.argumentNotConstant position (← get).call)
  | some value =>
      if value < least then
        unsupported (.malformedCall (← get).call (.below position value least))
      else return value.toNat

/-- The number of operands still to be read. -/
def remaining : Reading Nat := do
  return (← get).rest.length

/-- There are no further operands. -/
def finish : Reading Unit := do
  let count ← remaining
  if count ≠ 0 then unsupported (.malformedCall (← get).call (.trailing count))

/-- The same item a number of times. -/
def times {α : Type} (item : Reading α) : Nat → Reading (List α)
  | 0 => return []
  | count + 1 => do
      let first ← item
      return first :: (← times item count)

/-- Items until no operand is left, at most `most` of them. -/
def untilEmpty {α : Type} (item : Reading α) : Nat → Reading (List α)
  | 0 => return []
  | most + 1 => do
      if (← remaining) = 0 then return []
      else
        let first ← item
        return first :: (← untilEmpty item most)

/-- Items, each of at least one operand, until no operand is left. -/
def toEnd {α : Type} (item : Reading α) : Reading (List α) := do
  untilEmpty item (← remaining)

/-- Run a reading over the operands of a call. -/
def read {α : Type} (call : String) (reading : Reading α) (args : List Expr) : Fallible α :=
  reading.run' (ofCall call args)

end Operands

/-- The wire on which a consumer finds its part of a stream. -/
def consumerStream (stream consumer : String) : String := stream ++ "_to_" ++ consumer

/-- Reading a window of a stream into a stencil. A consumer of a dispatched
    stream reads its own part. -/
structure ReadStream where
  stream : String
  stencil : String
  deriving DecidableEq, Repr, Inhabited

namespace ReadStream

/-- The name of the operation. -/
def callName : String := "read_stream"

/-- What the operands of the operation ask for. -/
def ofArgs (args : List Expr) : Fallible ReadStream :=
  Operands.read callName (do
    let stream ← Operands.buffer
    let stencil ← Operands.buffer
    let part ←
      if 0 < (← Operands.remaining) then do
        let consumer ← Operands.text
        pure (consumerStream (printName stream) (printName consumer))
      else pure (printName stream)
    Operands.finish
    return ⟨part, printName stencil⟩) args

end ReadStream

/-- Writing a stencil to a stream. A write to a kernel output tells its port and
    the shape of the whole image. -/
structure WriteStream where
  stream : String
  stencil : String
  port : String
  storeExtents : Option (List Nat)
  deriving DecidableEq, Repr, Inhabited

namespace WriteStream

/-- The name of the operation. -/
def callName : String := "write_stream"

/-- The extent of a dimension given by a loop and its largest value. -/
def loopExtent : Reading Nat := do
  let _ ← Operands.text
  return (← Operands.atLeast 0) + 1

/-- What the operands of the operation ask for. -/
def ofArgs (args : List Expr) : Fallible WriteStream :=
  Operands.read callName (do
    let stream ← Operands.buffer
    let stencil ← Operands.buffer
    let extents ← Operands.toEnd loopExtent
    return ⟨printName stream, printName stencil, printName (rootName stream),
      if extents = [] then none else some extents⟩) args

end WriteStream

/-- A line buffer between two streams, over an image. -/
structure LineBufferCall where
  input : String
  output : String
  storeExtents : List Nat
  deriving DecidableEq, Repr, Inhabited

namespace LineBufferCall

/-- The name of the operation. -/
def callName : String := "linebuffer"

/-- What the operands of the operation ask for. -/
def ofArgs (args : List Expr) : Fallible LineBufferCall :=
  Operands.read callName (do
    let input ← Operands.buffer
    let output ← Operands.buffer
    let storeExtents ← Operands.toEnd (Operands.atLeast 1)
    if storeExtents = [] then unsupported (.malformedCall callName .noStoreExtents)
    return ⟨printName input, printName output, storeExtents⟩) args

end LineBufferCall

/-- Handing the windows of a stream to consumers. -/
structure DispatchCall where
  stream : String
  plan : DispatchPlan
  deriving DecidableEq, Repr, Inhabited

namespace DispatchCall

/-- The name of the operation. -/
def callName : String := "dispatch_stream"

/-- No memory has room for the boxes of more consumers than this. -/
def mostConsumers : Nat := 0x100000000000000

/-- Size, step and store extent of a dimension. -/
def dimension : Reading (Nat × Nat × Nat) := do
  let size ← Operands.atLeast 1
  let step ← Operands.atLeast 1
  let storeExtent ← Operands.atLeast 1
  return (size, step, storeExtent)

/-- Offset and extent of a box in a dimension. -/
def boxDimension : Reading (Nat × Nat) := do
  let offset ← Operands.atLeast 0
  let extent ← Operands.atLeast 1
  return (offset, extent)

/-- A consumer and its box. -/
def consumer (rank : Nat) : Reading DispatchBox := do
  let name ← Operands.text
  let depth ← Operands.atLeast 0
  let box ← Operands.times boxDimension rank
  return ⟨printName name, depth, box.map Prod.fst, box.map Prod.snd⟩

/-- What the operands of the operation ask for. -/
def ofArgs (args : List Expr) : Fallible DispatchCall :=
  Operands.read callName (do
    let stream ← Operands.buffer
    let rank ← Operands.atLeast 1
    let dimensions ← Operands.times dimension rank
    let count ← Operands.atLeast 1
    if mostConsumers < count then giveWay .outOfRange
    let consumers ← Operands.times (consumer rank) count
    Operands.finish
    return ⟨printName stream,
      ⟨dimensions.map (·.1), dimensions.map (·.2.1), dimensions.map (·.2.2), consumers⟩⟩) args

/-- Whether the only consumer, having no queue, can use the stream itself. -/
def isAlias (c : DispatchCall) : Bool :=
  match c.plan.consumers with
  | [only] => only.depth = 0
  | _ => false

end DispatchCall

/-- The built-in operations on streams, which are no values. -/
def streamOperations : List String :=
  [ReadStream.callName, WriteStream.callName, LineBufferCall.callName, DispatchCall.callName]

end StencilRtl
