import StencilRtl.Kernel.Stmt
import StencilRtl.Kernel.StreamCall

/-!
# Free names

The names a loop nest uses without binding them.

These are the scalars and stencils that a stage has to be given from outside. A
nest is read from front to back. A loop, a buffer or a let binds its name from
there on, and a name used before it is bound is free. The operands of stream
operations do not count, since streams are connected on their own.

## Main definitions

* `Mention`: A name bound or used.
* `Expr.mentions`, `Stmt.mentions`: The names in reading order.
* `freeNames`: The free names of a loop.
-/

namespace StencilRtl

/-- A name on the way through a loop nest. -/
inductive Mention where
  | binds (name : String)
  | uses (name : String)
  deriving DecidableEq, Repr, Inhabited

namespace Expr

mutual

/-- The names bound and used in an expression, in reading order. -/
def mentions : Expr → List Mention
  | .intImm _ _ => []
  | .uintImm _ _ => []
  | .floatImm _ _ => []
  | .textImm _ => []
  | .var _ name => [.uses name]
  | .cast _ value => value.mentions
  | .binary _ a b => a.mentions ++ b.mentions
  | .not a => a.mentions
  | .select condition ifTrue ifFalse =>
      condition.mentions ++ ifTrue.mentions ++ ifFalse.mentions
  | .letIn name value body => value.mentions ++ .binds name :: body.mentions
  | .call _ name args callType =>
      if name ∈ streamOperations then []
      else (if callType = .access then [.uses name] else []) ++ mentionsOfList args
  | .load _ _ index => index.mentions

/-- The names bound and used in some expressions, in reading order. -/
def mentionsOfList : List Expr → List Mention
  | [] => []
  | e :: rest => e.mentions ++ mentionsOfList rest

end

end Expr

namespace Stmt

mutual

/-- The names bound and used in a statement, in reading order. -/
def mentions : Stmt → List Mention
  | .letIn name value body => value.mentions ++ .binds name :: body.mentions
  | .assert condition message => condition.mentions ++ message.mentions
  | .producer _ _ body => body.mentions
  | .loop name min extent _ body =>
      .binds name :: (min.mentions ++ extent.mentions ++ body.mentions)
  | .provide _ values args => Expr.mentionsOfList values ++ Expr.mentionsOfList args
  | .realize name _ _ body => .binds name :: body.mentions
  | .block stmts => mentionsOfList stmts
  | .branch condition thenCase elseCase =>
      condition.mentions ++ thenCase.mentions ++ mentionsOfOption elseCase
  | .evaluate value => value.mentions
  | .store _ value index => value.mentions ++ index.mentions
  | .allocate _ _ extents body => Expr.mentionsOfList extents ++ body.mentions
  | .free _ => []

/-- The names bound and used in some statements, in reading order. -/
def mentionsOfList : List Stmt → List Mention
  | [] => []
  | s :: rest => s.mentions ++ mentionsOfList rest

/-- The names bound and used in an optional statement. -/
def mentionsOfOption : Option Stmt → List Mention
  | none => []
  | some s => s.mentions

end

end Stmt

/-- The names used before they are bound, once each, in order of their first
    use. `known` holds the names already bound or found. -/
def unboundUses (known : List String) : List Mention → List String
  | [] => []
  | .binds name :: rest => unboundUses (name :: known) rest
  | .uses name :: rest =>
      if name ∈ known then unboundUses known rest
      else name :: unboundUses (name :: known) rest

/-- The free names of a loop over `var`. -/
def freeNames (var : String) (body : Stmt) : List String :=
  unboundUses [var] body.mentions

end StencilRtl
