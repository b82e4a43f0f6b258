import StencilRtl.Error

/-!
# Outcomes

A computation of the generator ends in one of three ways: with a result, with
an `Error` that explains why there is none, or with a `Fault`.

A fault is the generator's own arithmetic giving way. Sizes, offsets and
counters are 64-bit words; a sum that leaves the word, a quotient by zero and a
declaration of no bits have no meaning in hardware, and nothing sensible can be
said about the kernel that asked for them. Faults are kept apart from errors
because an error is an answer and a fault is the absence of one.

`Fallible` is the monad of such computations when no state survives a failure.
Evaluation order matters: of two things that fail, the first decides.

## Main definitions

* `Fault`: The ways in which arithmetic or a declaration gives way.
* `Failure`: An error or a fault.
* `Fallible`: Results or failures.
* `unsupported`, `malformed`, `undefinedName`: Failing with a given cause.
-/

namespace StencilRtl

/-- The ways in which the generator's own arithmetic gives way. -/
inductive Fault where
  /-- A value left the range of its 64-bit word. -/
  | overflow
  /-- A division or remainder by zero. -/
  | divisionByZero
  /-- A declaration without bits or without elements. -/
  | emptyDeclaration
  /-- An index outside a collection. -/
  | outOfRange
  deriving DecidableEq, Repr

/-- Why there is no result. -/
inductive Failure where
  | fault (fault : Fault)
  | error (error : Error)
  deriving DecidableEq, Repr

/-- A result or the reason for its absence. -/
abbrev Fallible := Except Failure

/-- Fail because the input asks for something outside the supported subset. -/
def unsupported {α : Type} (cause : Unsupported) : Fallible α :=
  .error (.error (.unsupported cause))

/-- Fail because an invariant of the design is broken. -/
def malformed {α : Type} (cause : Malformed) : Fallible α :=
  .error (.error (.malformed cause))

/-- Fail because `name` was never declared as a `role`. -/
def undefinedName {α : Type} (name role : String) : Fallible α :=
  .error (.error (.undefined name role))

/-- Give way. -/
def giveWay {α : Type} (fault : Fault) : Fallible α :=
  .error (.fault fault)

end StencilRtl
