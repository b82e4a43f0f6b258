import Mathlib.Logic.Function.Basic
import StencilRtl.Hardware.Lowering

/-!
# Interpretations of the Scalar Operators

What expressions mean when nothing is known of the operators they are made of.

The order in which a body is carried out has nothing to do with what a sum is, so
everything about it is said for an arbitrary `Interpretation` of the operators of
the hardware language. The operators of a kernel get their meaning from it: a
minimum is a choice by a comparison in both languages.

A kernel's stencil is one word in hardware, and its elements are fields of that
word. Cutting words into fields is not what this is about either, so `Signals`
gives the elements of a word directly, by their place, and a scalar its value.
The same structure serves as what a kernel's expression can look at: the values
of names and the elements of stencils.

`Scope.meaning` follows the expressions of a kernel, `Interpretation.eval` those
of the hardware. Names bound inside an expression are kept in a list of their own,
since they hide the signals of the same name.

## Main definitions

* `Interpretation`: What the operators of the hardware language compute.
* `Signals`: The values of scalars and the elements of words.
* `Interpretation.eval`: What an expression of the hardware is worth.
* `Interpretation.execute`: What a statement of the hardware does to words.
* `Scope.meaning`: What an expression of a kernel is worth.
* `Scope.spot`: Where an element of a stencil lies.
-/

namespace StencilRtl

/-- What the operators of the hardware language compute on values of a type. A
    value is cut to size when it is put into a signal, where doing so a second
    time changes nothing, and an index tells an element of a word. -/
structure Interpretation (V : Type) where
  literal : Nat → Nat → V
  signedLiteral : Nat → Int → V
  number : Int → V
  not : V → V
  isZero : V → V
  negate : V → V
  binary : Rtl.Operator → V → V → V
  all : List V → V
  any : List V → V
  mux : V → V → V → V
  concat : List V → V
  part : V → Nat → Nat → V
  field : V → V → Nat → V
  signed : V → V
  unsigned : V → V
  /-- A value put into a signal of some width. -/
  fit : Nat → V → V
  /-- The element a value points at. -/
  index : V → Nat
  /-- Whether a value counts as true. -/
  holds : V → Bool
  fit_fit : ∀ width v, fit width (fit width v) = fit width v

/-- The values of scalar signals and the elements of the words of others. -/
structure Signals (V : Type) where
  value : String → V
  element : String → Nat → V

namespace Interpretation

variable {V : Type} (I : Interpretation V)

section

variable (σ : Signals V)

mutual

/-- What an expression of the hardware is worth. -/
def eval : Rtl.Expr → V
  | .ref name => σ.value name
  | .literal width value => I.literal width value
  | .signedLiteral width value => I.signedLiteral width value
  | .number value => I.number value
  | .not a => I.not (eval a)
  | .isZero a => I.isZero (eval a)
  | .negate a => I.negate (eval a)
  | .binary operator a b => I.binary operator (eval a) (eval b)
  | .all terms => I.all (evalList terms)
  | .any terms => I.any (evalList terms)
  | .mux condition ifTrue ifFalse =>
      I.mux (eval condition) (eval ifTrue) (eval ifFalse)
  | .concat parts => I.concat (evalList parts)
  | .element memory index => σ.element memory (I.index (eval index))
  | .bitAt base index => I.part (eval base) index 1
  | .range base high low => I.part (eval base) low (high + 1 - low)
  | .part (.ref word) low width => σ.element word (low / width)
  | .part base low width => I.part (eval base) low width
  | .field (.ref word) index _ => σ.element word (I.index (eval index))
  | .field base index width => I.field (eval base) (eval index) width
  | .signed a => I.signed (eval a)
  | .unsigned a => I.unsigned (eval a)

/-- What some expressions of the hardware are worth. -/
def evalList : List Rtl.Expr → List V
  | [] => []
  | e :: rest => eval e :: evalList rest

end

end

/-- The elements of words after an assignment. A word that becomes another one has
    its elements. -/
def assigned (σ : Signals V) (words : String → Nat → V) : Rtl.Expr → Rtl.Expr → String → Nat → V
  | .ref word, .ref source => Function.update words word (σ.element source)
  | .field (.ref word) index width, value =>
      Function.update words word (Function.update (words word) (I.index (I.eval σ index))
        (I.fit width (I.eval σ value)))
  | _, _ => words

section

variable (σ : Signals V)

mutual

/-- The elements of words after a statement of a process that started with some
    signals. -/
def execute (words : String → Nat → V) : Rtl.Stmt → String → Nat → V
  | .update target value => I.assigned σ words target value
  | .set target value => I.assigned ⟨σ.value, words⟩ words target value
  | .choose branches otherwise => executeFirst words (executeElse words otherwise) branches
  | .case subject branches otherwise =>
      executeCase words (executeElse words otherwise) (I.eval ⟨σ.value, words⟩ subject) branches

/-- The elements of words after some statements. -/
def executeAll (words : String → Nat → V) : List Rtl.Stmt → String → Nat → V
  | [] => words
  | s :: rest => executeAll (execute words s) rest

/-- The elements of words after the body of the first guard that holds, or else the
    last ones. -/
def executeFirst (words last : String → Nat → V) :
    List (Rtl.Expr × List Rtl.Stmt) → String → Nat → V
  | [] => last
  | (guard, body) :: rest =>
      if I.holds (I.eval ⟨σ.value, words⟩ guard) then executeAll words body
      else executeFirst words last rest

/-- The elements of words after the body whose label equals a value, or else the
    last ones. -/
def executeCase (words last : String → Nat → V) (subject : V) :
    List (Int × List Rtl.Stmt) → String → Nat → V
  | [] => last
  | (label, body) :: rest =>
      if I.holds (I.binary .eq subject (I.number label)) then executeAll words body
      else executeCase words last subject rest

/-- The elements of words after the last body, if there is one. -/
def executeElse (words : String → Nat → V) : Option (List Rtl.Stmt) → String → Nat → V
  | none => words
  | some body => executeAll words body

end

end

theorem execute_when (σ : Signals V) (words : String → Nat → V) (guard : Rtl.Expr)
    (body : List Rtl.Stmt) :
    I.execute σ words (.when guard body)
      = if I.holds (I.eval ⟨σ.value, words⟩ guard) then I.executeAll σ words body else words := by
  rw [Rtl.Stmt.when, execute, executeFirst, executeFirst, executeElse]

/-- The elements of words after a clock edge. -/
def edge (σ : Signals V) (items : List Rtl.Item) : String → Nat → V :=
  items.foldl
    (fun words => fun
      | .process .clocked body => I.executeAll σ words body
      | _ => words)
    σ.element

/-- A value read with the signedness of its type. -/
def read (t : ScalarType) (v : V) : V := if t.isSigned then I.signed v else v

/-- What an operator of a kernel computes. -/
def operate (a b : V) : BinaryOp → V
  | .add => I.binary .add a b
  | .sub => I.binary .sub a b
  | .mul => I.binary .mul a b
  | .div => I.binary .div a b
  | .mod => I.binary .mod a b
  | .min => I.mux (I.binary .lt a b) a b
  | .max => I.mux (I.binary .gt a b) a b
  | .eq => I.binary .eq a b
  | .ne => I.binary .ne a b
  | .lt => I.binary .lt a b
  | .le => I.binary .le a b
  | .gt => I.binary .gt a b
  | .ge => I.binary .ge a b
  | .and => I.binary .logicalAnd a b
  | .or => I.binary .logicalOr a b

/-- What a built-in operation on one value computes. `signed` tells the type of
    the result. -/
def unary (signed : Bool) (a : V) : UnaryIntrinsic → V
  | .abs => I.mux (I.binary .lt a (I.number 0)) (I.negate a) a
  | .bitNot => I.not a
  | .reinterpret => if signed then I.signed a else I.unsigned a

/-- What a built-in operation on two values computes. `signed` tells the type of
    the result. -/
def pair (signed : Bool) (a b : V) : BinaryIntrinsic → V
  | .difference => I.mux (I.binary .lt a b) (I.binary .sub b a) (I.binary .sub a b)
  | .bitAnd => I.binary .bitAnd a b
  | .bitOr => I.binary .bitOr a b
  | .bitXor => I.binary .bitXor a b
  | .shiftLeft => I.binary .shiftLeft a b
  | .shiftRight => I.binary (if signed then .shiftRightSigned else .shiftRight) a b
  | .quotient => I.binary .div a b
  | .remainder => I.binary .mod a b

/-- What an integer constant is worth. -/
def constant (t : ScalarType) (value : Int64) : V :=
  if t.isSigned then I.signedLiteral t.width value.toInt
  else I.literal t.width value.toUInt64.toNat

/-- What a built-in operation computes on as many values as it has operands. -/
def intrinsic (signed : Bool) : Option Intrinsic → List V → V
  | some (.unary op), [a] => I.unary signed a op
  | some (.binary op), [a, b] => I.pair signed a b op
  | _, _ => I.number 0

/-- The place given by computed coordinates, dimension 0 varying fastest. -/
def place : List (V × Nat) → V
  | [] => I.number 0
  | [(c, _)] => c
  | (c, extent) :: rest =>
      I.binary .add c (I.binary .mul (place rest) (I.number extent))

attribute [local simp] eval in
theorem eval_apply_binary (σ : Signals V) (op : BinaryOp) (a b : Rtl.Expr) :
    I.eval σ (op.apply a b) = I.operate (I.eval σ a) (I.eval σ b) op := by
  cases op <;> simp [BinaryOp.apply, operate]

theorem eval_apply_unary (σ : Signals V) (op : UnaryIntrinsic) (signed : Bool) (a : Rtl.Expr) :
    I.eval σ (op.apply signed a) = I.unary signed (I.eval σ a) op := by
  cases op with
  | abs => simp only [UnaryIntrinsic.apply, eval, unary]
  | bitNot => simp only [UnaryIntrinsic.apply, eval, unary]
  | reinterpret => cases signed <;> simp [UnaryIntrinsic.apply, eval, unary]

theorem eval_apply_pair (σ : Signals V) (op : BinaryIntrinsic) (signed : Bool)
    (a b : Rtl.Expr) :
    I.eval σ (op.apply signed a b) = I.pair signed (I.eval σ a) (I.eval σ b) op := by
  cases op <;> simp only [BinaryIntrinsic.apply, eval, pair]

theorem eval_read (σ : Signals V) (t : ScalarType) (e : Rtl.Expr) :
    I.eval σ (t.read e) = I.read t (I.eval σ e) := by
  unfold ScalarType.read read
  split
  · simp only [eval]
  · rfl

theorem eval_intLiteral (σ : Signals V) (t : ScalarType) (value : Int64) :
    I.eval σ (t.intLiteral value) = I.constant t value := by
  unfold ScalarType.intLiteral constant
  split <;> simp only [eval]

theorem eval_computedPlace (σ : Signals V) (coordinates : List Rtl.Expr) (extents : List Nat) :
    I.eval σ (computedPlace (coordinates.zip extents))
      = I.place ((I.evalList σ coordinates).zip extents) := by
  induction coordinates generalizing extents with
  | nil => simp only [List.zip_nil_left, computedPlace, evalList, place, eval]
  | cons c rest ih =>
      cases extents with
      | nil => simp only [List.zip_nil_right, computedPlace, place, eval]
      | cons extent more =>
          have hrest := ih more
          -- The last coordinate is not multiplied, so that one and more coordinates are told apart.
          cases rest with
          | nil => simp only [evalList, List.zip_cons_cons, List.zip_nil_left, computedPlace, place]
          | cons d others =>
              cases more with
              | nil =>
                  simp only [evalList, List.zip_cons_cons, List.zip_nil_right, computedPlace, place]
              | cons extent' extents' =>
                  simp only [evalList, List.zip_cons_cons] at hrest
                  simp only [evalList, List.zip_cons_cons, computedPlace, place, eval, hrest]

end Interpretation

/-- Where an element lies: at a place known in advance, or at the one a value
    points at. -/
inductive Spot (V : Type) where
  | fixed (flat : Nat)
  | computed (flat : V)

/-- The place of constant coordinates, dimension 0 varying fastest. -/
def flatPlace (extents : List Nat) (index : List Int) : Nat :=
  (index.zip extents).foldr (fun (i, e) acc => acc * e + i.toNat) 0

namespace Scope

variable (s : Scope) {V : Type} (I : Interpretation V) (σ : Signals V)

/-- The value a name is bound to inside an expression. -/
def boundValue? (bound : List (String × V)) (name : String) : Option V :=
  (bound.find? fun b => b.1 = name).map Prod.snd

/-- What a variable is worth. -/
def variableMeaning (bound : List (String × V)) (type : ScalarType) (name : String) : V :=
  let signal := printName name
  match boundValue? bound signal with
  | some v => v
  | none => if signal ∈ s.counters then σ.value signal else I.read type (σ.value signal)

/-- The extents of a stencil. -/
def extentsOf (name : String) : List Nat :=
  ((s.stencil? (printName name)).map Shape.extents).getD []

mutual

/-- What an expression of a kernel is worth. Nothing is promised of one that
    cannot become hardware. -/
def meaning (bound : List (String × V)) : Expr → V
  | .intImm type value => I.constant type value
  | .uintImm type value => I.literal type.width value.toNat
  | .floatImm _ _ => I.number 0
  | .textImm _ => I.number 0
  | .var type name => s.variableMeaning I σ bound type name
  | .cast type value => I.read type (I.fit type.width (meaning bound value))
  | .binary op a b => I.operate (meaning bound a) (meaning bound b) op
  | .not a => I.isZero (meaning bound a)
  | .select condition ifTrue ifFalse =>
      I.mux (meaning bound condition) (meaning bound ifTrue) (meaning bound ifFalse)
  | .letIn name value body => meaning ((printName name, meaning bound value) :: bound) body
  | .call type name args callType =>
      if callType = .access || isStencilName name then
        I.read type (σ.element (printName name)
          (match args.mapM Expr.constant? with
            | some index => flatPlace (s.extentsOf name) index
            | none => I.index (I.place ((coordinateValues bound args).zip (s.extentsOf name)))))
      else I.intrinsic type.isSigned (Intrinsic.ofName? name) (meanings bound args)
  | .load _ _ _ => I.number 0

/-- What some expressions of a kernel are worth. -/
def meanings (bound : List (String × V)) : List Expr → List V
  | [] => []
  | e :: rest => meaning bound e :: meanings bound rest

/-- What coordinates are worth. -/
def coordinateValues (bound : List (String × V)) : List Expr → List V
  | [] => []
  | e :: rest =>
      (match e.constant? with
        | some c => I.number c
        | none => meaning bound e) :: coordinateValues bound rest

end

/-- Where an element of a stencil lies. -/
def spot (bound : List (String × V)) (name : String) (args : List Expr) : Spot V :=
  match args.mapM Expr.constant? with
  | some index => .fixed (flatPlace (s.extentsOf name) index)
  | none => .computed (I.place ((s.coordinateValues I σ bound args).zip (s.extentsOf name)))

end Scope

/-- The number of the element at a place. -/
def Spot.flat {V : Type} (I : Interpretation V) : Spot V → Nat
  | .fixed flat => flat
  | .computed flat => I.index flat

/-- An access is worth the element it names. -/
theorem Scope.meaning_access (s : Scope) {V : Type} (I : Interpretation V) (σ : Signals V)
    (bound : List (String × V)) (type : ScalarType) (name : String) (args : List Expr)
    (callType : CallType) (h : (callType = .access || isStencilName name) = true) :
    s.meaning I σ bound (.call type name args callType)
      = I.read type (σ.element (printName name) ((s.spot I σ bound name args).flat I)) := by
  rw [meaning, if_pos h, spot]
  cases args.mapM Expr.constant? with
  | none => rfl
  | some index => rfl

end StencilRtl
