import Mathlib.Algebra.Group.Int.Defs
import Mathlib.Algebra.Group.Nat.Defs
import Mathlib.Logic.Function.Basic
import StencilRtl.Rtl.Module

/-!
# What Modules Do

Runs of hardware modules, cycle by cycle.

A value is the number its bits spell. How many bits an operation works on is a
matter of everything around it: an expression has a size of its own, operands are
first brought to the largest size in the expression and to that of the target, and
they are brought there with their signs only if every one of them has a sign. So
`value` is given the size and the signedness that the surroundings ask for, and
`own` asks for no more than the expression itself.

There are no unknown values. A register that has not been set holds some number of
its size, and an operation without a defined result gives `unknown`, of which
nothing is assumed.

A run of a module is a sequence of states, one for each clock cycle, and says of
each item what it demands. Logic without a clock has settled: assigning or running
it once more changes nothing. What a clocked process updates has in the next cycle
the value it was given, or else the one it had. An instance is a run of its own,
of the module the library has under its name, joined to the outer one where its
ports are connected.

## Main definitions

* `Typing`, `State`: The sizes and the values of signals and memories.
* `Expr.size`, `Expr.isSigned`, `Expr.value`: The value of an expression.
* `Stmt.execute`: What a statement of a process does.
* `Item.Holds`: What an item demands of two successive cycles.
* `Module.Runs`: The runs of a module.
-/

namespace StencilRtl

namespace Rtl

/-- The sizes of signals and memories. -/
structure Typing where
  width : String → Nat
  cellWidth : String → Nat
  depth : String → Nat

/-- The values of signals and memories in one cycle, and what operations give that
    have no defined result. -/
structure State where
  value : String → Nat
  cell : String → Nat → Nat
  unknown : Nat

/-- Bring a value of some width to a larger one, with its sign or without. -/
def extend (signed : Bool) (width context v : Nat) : Nat :=
  if signed && decide (2 ^ width ≤ 2 * v) then v + (2 ^ context - 2 ^ width) else v

/-- The number a word of some width spells when read with a sign. -/
def toSigned (width v : Nat) : Int := if 2 ^ width ≤ 2 * v then (v : Int) - 2 ^ width else v

/-- The word of some width that spells a number. -/
def ofInt (width : Nat) (i : Int) : Nat := (i % 2 ^ width).toNat

/-- Some bits of a value, from the bit at `low` upwards, of which nothing is known if
    the value does not have them all. -/
def bitsOf (unknown size v low width : Nat) : Nat :=
  if low + width ≤ size then v >>> low % 2 ^ width else unknown % 2 ^ width

/-- How the sizes of two operands and of the result go together. -/
inductive OperandRule where
  /-- Both operands and the result have one size. -/
  | shared
  /-- Both operands have one size, the result is a bit. -/
  | compared
  /-- The operands stand on their own, the result is a bit. -/
  | logical
  /-- The result has the size of the left operand. -/
  | shifted

/-- How the sizes around an operator go together. -/
def Operator.rule : Operator → OperandRule
  | .add | .sub | .mul | .div | .mod | .bitAnd | .bitOr | .bitXor => .shared
  | .eq | .ne | .lt | .le | .gt | .ge => .compared
  | .logicalAnd | .logicalOr => .logical
  | .shiftLeft | .shiftRight | .shiftRightSigned => .shifted

/-- A bit. -/
def bitOf (p : Prop) [Decidable p] : Nat := if p then 1 else 0

/-- The result of an operator on operands that have been brought to `width` bits. -/
def Operator.compute (unknown width : Nat) (signed : Bool) (a b : Nat) : Operator → Nat
  | .add => (a + b) % 2 ^ width
  | .sub => (a + (2 ^ width - b)) % 2 ^ width
  | .mul => a * b % 2 ^ width
  | .div =>
      if b = 0 then unknown % 2 ^ width
      else if signed then ofInt width ((toSigned width a).tdiv (toSigned width b)) else a / b
  | .mod =>
      if b = 0 then unknown % 2 ^ width
      else if signed then ofInt width ((toSigned width a).tmod (toSigned width b)) else a % b
  | .eq => bitOf (a = b)
  | .ne => bitOf (a ≠ b)
  | .lt => if signed then bitOf (toSigned width a < toSigned width b) else bitOf (a < b)
  | .le => if signed then bitOf (toSigned width a ≤ toSigned width b) else bitOf (a ≤ b)
  | .gt => if signed then bitOf (toSigned width b < toSigned width a) else bitOf (b < a)
  | .ge => if signed then bitOf (toSigned width b ≤ toSigned width a) else bitOf (b ≤ a)
  | .logicalAnd => bitOf (a ≠ 0 ∧ b ≠ 0)
  | .logicalOr => bitOf (a ≠ 0 ∨ b ≠ 0)
  | .bitAnd => a &&& b
  | .bitOr => a ||| b
  | .bitXor => a ^^^ b
  | .shiftLeft => (a <<< b) % 2 ^ width
  | .shiftRight => a >>> b
  | .shiftRightSigned =>
      if signed then ofInt width (toSigned width a / 2 ^ b) else a >>> b

namespace Expr

section

variable (Γ : Typing)

mutual

/-- The size of an expression on its own. -/
def size : Expr → Nat
  | .ref name => Γ.width name
  | .literal width _ => width
  | .signedLiteral width _ => width
  | .number _ => 32
  | .not a => size a
  | .isZero _ => 1
  | .negate a => size a
  | .binary operator a b =>
      match operator.rule with
      | .shared => max (size a) (size b)
      | .compared => 1
      | .logical => 1
      | .shifted => size a
  | .all terms => max 1 (largest terms)
  | .any terms => max 1 (largest terms)
  | .mux _ ifTrue ifFalse => max (size ifTrue) (size ifFalse)
  | .concat parts => total parts
  | .element memory _ => Γ.cellWidth memory
  | .bitAt _ _ => 1
  | .range _ high low => high + 1 - low
  | .part _ _ width => width
  | .field _ _ width => width
  | .signed a => size a
  | .unsigned a => size a

/-- The largest size of some expressions. -/
def largest : List Expr → Nat
  | [] => 0
  | e :: rest => max (size e) (largest rest)

/-- The sizes of some expressions together. -/
def total : List Expr → Nat
  | [] => 0
  | e :: rest => size e + total rest

end

end

mutual

/-- Whether an expression has a sign. -/
def isSigned : Expr → Bool
  | .ref _ => false
  | .literal _ _ => false
  | .signedLiteral _ _ => true
  | .number _ => true
  | .not a => isSigned a
  | .isZero _ => false
  | .negate a => isSigned a
  | .binary operator a b =>
      match operator.rule with
      | .shared => isSigned a && isSigned b
      | .compared => false
      | .logical => false
      | .shifted => isSigned a
  | .all terms => allSigned terms && !terms.isEmpty
  | .any terms => allSigned terms && !terms.isEmpty
  | .mux _ ifTrue ifFalse => isSigned ifTrue && isSigned ifFalse
  | .concat parts => allSigned parts && parts.length == 1
  | .element _ _ => false
  | .bitAt _ _ => false
  | .range _ _ _ => false
  | .part _ _ _ => false
  | .field _ _ _ => false
  | .signed _ => true
  | .unsigned _ => false

/-- Whether some expressions all have a sign. -/
def allSigned : List Expr → Bool
  | [] => true
  | e :: rest => isSigned e && allSigned rest

end

section

variable (Γ : Typing) (σ : State)

mutual

/-- The value of an expression whose surroundings ask for some size and signedness. -/
def value (context : Nat) (signed : Bool) : Expr → Nat
  | .ref name => extend signed (Γ.width name) context (σ.value name)
  | .literal width v => extend signed width context (v % 2 ^ width)
  | .signedLiteral width v => extend signed width context (ofInt width v)
  | .number v => extend signed 32 context (ofInt 32 v)
  | .not a => 2 ^ context - 1 - value context signed a
  | .isZero a => bitOf (value (size Γ a) (isSigned a) a = 0)
  | .negate a => (2 ^ context - value context signed a) % 2 ^ context
  | .binary operator a b =>
      match operator.rule with
      | .shared =>
          operator.compute σ.unknown context signed (value context signed a)
            (value context signed b)
      | .compared =>
          let width := max (size Γ a) (size Γ b)
          let both := isSigned a && isSigned b
          operator.compute σ.unknown width both (value width both a) (value width both b)
      | .logical =>
          operator.compute σ.unknown 1 false (value (size Γ a) (isSigned a) a)
            (value (size Γ b) (isSigned b) b)
      | .shifted =>
          operator.compute σ.unknown context signed (value context signed a)
            (value (size Γ b) (isSigned b) b)
  | .all terms => conjunction context signed terms
  | .any terms => disjunction context signed terms
  | .mux condition ifTrue ifFalse =>
      if value (size Γ condition) (isSigned condition) condition ≠ 0 then
        value context signed ifTrue
      else value context signed ifFalse
  | .concat parts => joined context signed parts
  | .element memory index =>
      σ.cell memory (value (size Γ index) (isSigned index) index) % 2 ^ Γ.cellWidth memory
  | .bitAt base index =>
      bitsOf σ.unknown (size Γ base) (value (size Γ base) (isSigned base) base) index 1
  | .range base high low =>
      bitsOf σ.unknown (size Γ base) (value (size Γ base) (isSigned base) base) low
        (high + 1 - low)
  | .part base low width =>
      bitsOf σ.unknown (size Γ base) (value (size Γ base) (isSigned base) base) low width
  | .field base index width =>
      let room := max 32 (size Γ index)
      bitsOf σ.unknown (size Γ base) (value (size Γ base) (isSigned base) base)
        (value room (isSigned index) index * width % 2 ^ room) width
  | .signed a => extend signed (size Γ a) context (value (size Γ a) (isSigned a) a)
  | .unsigned a => value (size Γ a) (isSigned a) a

/-- The conjunction of terms, one bit if there are none. -/
def conjunction (context : Nat) (signed : Bool) : List Expr → Nat
  | [] => 1
  | [e] => value context signed e
  | e :: rest => value context signed e &&& conjunction context signed rest

/-- The disjunction of terms. -/
def disjunction (context : Nat) (signed : Bool) : List Expr → Nat
  | [] => 0
  | e :: rest => value context signed e ||| disjunction context signed rest

/-- Parts put together, the first one in the low bits. A lone part is itself. -/
def joined (context : Nat) (signed : Bool) : List Expr → Nat
  | [] => 0
  | [e] => value context signed e
  | e :: rest => value (size Γ e) (isSigned e) e + 2 ^ size Γ e * packed rest

/-- Parts put together, each one on its own. -/
def packed : List Expr → Nat
  | [] => 0
  | e :: rest => value (size Γ e) (isSigned e) e + 2 ^ size Γ e * packed rest

end

/-- The value of an expression on its own. -/
def own (e : Expr) : Nat := e.value Γ σ (e.size Γ) e.isSigned

/-- The value of an expression in a target of some width. -/
def assigned (width : Nat) (e : Expr) : Nat :=
  e.value Γ σ (max width (e.size Γ)) e.isSigned % 2 ^ width

end

/-- The name of the signal or memory a target is or is part of. -/
def target? : Expr → Option String
  | .ref name => some name
  | .element memory _ => some memory
  | .bitAt base _ => target? base
  | .range base _ _ => target? base
  | .part base _ _ => target? base
  | .field base _ _ => target? base
  | _ => none

end Expr

/-- A word in which `width` bits from the bit at `low` upwards are those of `v`. -/
def withBits (word low width v : Nat) : Nat :=
  word % 2 ^ low + 2 ^ low * (v % 2 ^ width + 2 ^ width * (word / 2 ^ (low + width)))

namespace State

variable (Γ : Typing)

/-- The state with a value put into a signal. -/
def setValue (s : State) (name : String) (v : Nat) : State :=
  { s with value := Function.update s.value name v }

/-- The state with a value put into a memory, unless the place is outside of it. -/
def setCell (s : State) (memory : String) (index v : Nat) : State :=
  if index < Γ.depth memory then
    { s with cell := Function.update s.cell memory (Function.update (s.cell memory) index v) }
  else s

/-- The state with some bits put into a signal, as far as it has them. -/
def setBits (s : State) (name : String) (low width v : Nat) : State :=
  s.setValue name (withBits (s.value name) low width v % 2 ^ Γ.width name)

/-- The state with the value of an expression put into a target. Everything is
    looked up in another state. -/
def put (s read : State) : Expr → Expr → State
  | .ref name, e => s.setValue name (e.assigned Γ read (Γ.width name))
  | .element memory index, e =>
      s.setCell Γ memory (index.own Γ read) (e.assigned Γ read (Γ.cellWidth memory))
  | .bitAt (.ref name) index, e => s.setBits Γ name index 1 (e.assigned Γ read 1)
  | .range (.ref name) high low, e =>
      s.setBits Γ name low (high + 1 - low) (e.assigned Γ read (high + 1 - low))
  | .part (.ref name) low width, e => s.setBits Γ name low width (e.assigned Γ read width)
  | .field (.ref name) index width, e =>
      let room := max 32 (index.size Γ)
      s.setBits Γ name (index.value Γ read room index.isSigned * width % 2 ^ room) width
        (e.assigned Γ read width)
  | _, _ => s

/-- A signal or memory is the same in two states. -/
def Same (s t : State) (name : String) : Prop :=
  s.value name = t.value name ∧ ∀ i < Γ.depth name, s.cell name i = t.cell name i

instance (s t : State) (name : String) : Decidable (Same Γ s t name) :=
  inferInstanceAs (Decidable (_ ∧ _))

end State

/-- The state while a process runs: as it is seen by what follows, and as it will be
    after the step. -/
structure Progress where
  now : State
  after : State

namespace Stmt

section

variable (Γ : Typing)

mutual

/-- What a statement does. -/
def execute (p : Progress) : Stmt → Progress
  | .update target value => ⟨p.now, p.after.put Γ p.now target value⟩
  | .set target value => ⟨p.now.put Γ p.now target value, p.after⟩
  | .choose branches otherwise => executeFirst p (executeElse p otherwise) branches
  | .case subject branches otherwise => executeCase p (executeElse p otherwise) subject branches

/-- What some statements do. -/
def executeAll (p : Progress) : List Stmt → Progress
  | [] => p
  | s :: rest => executeAll (execute p s) rest

/-- What the body of the first guard that holds does, or else the last one. -/
def executeFirst (p last : Progress) : List (Expr × List Stmt) → Progress
  | [] => last
  | (guard, body) :: rest =>
      if guard.own Γ p.now ≠ 0 then executeAll p body else executeFirst p last rest

/-- What the body with the label of the subject does, or else the last one. Labels
    have 32 bits, and both are compared in the larger size. -/
def executeCase (p last : Progress) (subject : Expr) : List (Int × List Stmt) → Progress
  | [] => last
  | (label, body) :: rest =>
      let width := max (subject.size Γ) 32
      if subject.value Γ p.now width subject.isSigned
          = (Expr.number label).value Γ p.now width subject.isSigned then
        executeAll p body
      else executeCase p last subject rest

/-- What the last body does, if there is one. -/
def executeElse (p : Progress) : Option (List Stmt) → Progress
  | none => p
  | some body => executeAll p body

end

end

mutual

/-- What a statement assigns to. -/
def targets : Stmt → List String
  | .update target _ => target.target?.toList
  | .set target _ => target.target?.toList
  | .choose branches otherwise => targetsOfBranches branches ++ targetsOfElse otherwise
  | .case _ branches otherwise => targetsOfCases branches ++ targetsOfElse otherwise

/-- What some statements assign to. -/
def targetsOfAll : List Stmt → List String
  | [] => []
  | s :: rest => targets s ++ targetsOfAll rest

/-- What guarded bodies assign to. -/
def targetsOfBranches : List (Expr × List Stmt) → List String
  | [] => []
  | (_, body) :: rest => targetsOfAll body ++ targetsOfBranches rest

/-- What labelled bodies assign to. -/
def targetsOfCases : List (Int × List Stmt) → List String
  | [] => []
  | (_, body) :: rest => targetsOfAll body ++ targetsOfCases rest

/-- What the last body assigns to. -/
def targetsOfElse : Option (List Stmt) → List String
  | none => []
  | some body => targetsOfAll body

end

end Stmt

/-- What an item demands of two successive cycles. -/
def Item.Holds (Γ : Typing) (s t : State) : Item → Prop
  | .wire _ _ => True
  | .reg _ _ => True
  | .memory _ _ _ => True
  | .assign target value => ∀ name ∈ target.target?, State.Same Γ s (s.put Γ s target value) name
  | .process .combinational body =>
      ∀ name ∈ Stmt.targetsOfAll body, State.Same Γ s (Stmt.executeAll Γ ⟨s, s⟩ body).now name
  | .process .clocked body =>
      ∀ name ∈ Stmt.targetsOfAll body, State.Same Γ t (Stmt.executeAll Γ ⟨s, s⟩ body).after name
  | .submodule _ _ _ => True

/-- The signals a port or an item declares, with their widths. -/
def Module.signals (m : Module) : List (String × Nat) :=
  m.ports.map (fun p => (p.name, p.width)) ++ m.body.filterMap fun
    | .wire name width => some (name, width)
    | .reg name width => some (name, width)
    | _ => none

/-- The memories an item declares, with the widths and the number of their cells. -/
def Module.memories (m : Module) : List (String × Nat × Nat) :=
  m.body.filterMap fun
    | .memory name width depth => some (name, width, depth)
    | _ => none

/-- The signals and memories of a module have the sizes they are declared with. -/
structure Module.Typed (m : Module) (Γ : Typing) (s : State) : Prop where
  signal : ∀ d ∈ m.signals, Γ.width d.1 = d.2 ∧ s.value d.1 < 2 ^ d.2
  memory : ∀ d ∈ m.memories, Γ.cellWidth d.1 = d.2.1 ∧ Γ.depth d.1 = d.2.2 ∧
    ∀ i < d.2.2, s.cell d.1 i < 2 ^ d.2.1

/-- A port of an instance and the expression it is connected to have one value. -/
def Port.Joined (p : Port) (Γ : Typing) (outer inner : State) (e : Expr) : Prop :=
  match p.direction with
  | .input => inner.value p.name = e.assigned Γ outer p.width
  | .output => ∀ name, e = .ref name →
      outer.value name = inner.value p.name % 2 ^ Γ.width name

/-- The runs of a module, given the modules that its instances are made of. -/
inductive Module.Runs (library : String → Option Module) : Module → Typing → (Nat → State) → Prop
  | intro {m : Module} {Γ : Typing} {τ : Nat → State} (inner : String → Module)
      (typing : String → Typing) (run : String → Nat → State)
      (typed : ∀ t, m.Typed Γ (τ t))
      (holds : ∀ t, ∀ item ∈ m.body, item.Holds Γ (τ t) (τ (t + 1)))
      (defined : ∀ name instanceName connections,
        .submodule name instanceName connections ∈ m.body →
          library name = some (inner instanceName))
      (runs : ∀ name instanceName connections,
        .submodule name instanceName connections ∈ m.body →
          Module.Runs library (inner instanceName) (typing instanceName) (run instanceName))
      (joined : ∀ name instanceName connections,
        .submodule name instanceName connections ∈ m.body →
          ∀ t, ∀ p ∈ (inner instanceName).ports, ∀ e, (p.name, e) ∈ connections →
            p.Joined Γ (τ t) (run instanceName t) e) :
      Module.Runs library m Γ τ

end Rtl

end StencilRtl
