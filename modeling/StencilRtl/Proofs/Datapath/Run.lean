import StencilRtl.Hardware.Datapath
import StencilRtl.Proofs.Datapath.Interpretation

/-!
# Carrying Out a Body

The actions of a body, in order or all at once.

Carried out in order, each action sees what the ones before it have done. In
hardware they all happen in one load: every expression looks at the window as the
last load has left it, and at names and elements of local stencils that hold one
value throughout. Both are runs of the same actions here, and a `Timing` tells
them apart. It says what a read sees, and where a store into the window goes.

`InOrder` is the reason why the two usually agree. It follows the run in order and
asks of every read whether what it finds is there throughout the load: a name or a
local element that nothing after the read changes, an element of the window that
nothing before the read has changed. `sees` collects the reads of an expression,
and `meaning_congr` is why nothing else about the signals matters.

## Main definitions

* `Timing`, `StagePlan.run`: Carrying out a body.
* `Timing.inOrder`, `Timing.atOnce`: The two ways to do so.
* `Scope.sees`: Everything an expression reads is among some signals.
* `StagePlan.InOrder`: No read sees a store too early or too late.

## Theorems

* `Scope.meaning_congr`: An expression means what the signals it reads tell.
-/

namespace StencilRtl

/-- What a read sees of the signals so far, and where a store into the window
    goes. -/
structure Timing (V : Type) where
  seen : Signals V → Signals V
  place : Spot V → Nat

namespace Timing

variable {V : Type} (I : Interpretation V)

/-- Every action sees what was stored before it. -/
def inOrder : Timing V := ⟨id, Spot.flat I⟩

/-- Every action sees the same signals, and a place is one as far as it fits the
    signal that carries it. -/
def atOnce (σ : Signals V) (indexWidth : Nat) : Timing V :=
  ⟨fun _ => σ, fun
    | .fixed flat => I.index (I.fit indexWidth (I.literal indexWidth flat))
    | .computed flat => I.index (I.fit indexWidth flat)⟩

@[simp] theorem inOrder_seen (s : Signals V) : (inOrder I).seen s = s := rfl

@[simp] theorem inOrder_place (spot : Spot V) : (inOrder I).place spot = spot.flat I := rfl

@[simp] theorem atOnce_seen (σ s : Signals V) (indexWidth : Nat) :
    (atOnce I σ indexWidth).seen s = σ := rfl

end Timing

namespace StagePlan

variable (p : StagePlan) {V : Type} (I : Interpretation V)

/-- The shape of a stencil that is stored into. -/
def storeShape? (stencil : String) : Option Shape :=
  if stencil = p.output.stencil then some p.output.shape else p.scope.stencil? stencil

/-- The width of the elements of a stencil that is stored into. -/
def storeBits (stencil : String) : Nat :=
  ((p.storeShape? stencil).map fun shape => shape.elem.bits).getD 0

/-- The element a store goes into. -/
def storePlace (t : Timing V) (stencil : String) (spot : Spot V) : Nat :=
  if stencil = p.output.stencil then t.place spot else spot.flat I

/-- Carry out one action. A value takes the size of what it is stored into. -/
def step (t : Timing V) (s : Signals V) : Action → Signals V
  | .letIn name value =>
      ⟨Function.update s.value name
        (I.fit value.type.width (p.scope.meaning I (t.seen s) [] value)), s.element⟩
  | .provide stencil args value =>
      ⟨s.value, Function.update s.element stencil (Function.update (s.element stencil)
        (p.storePlace I t stencil (p.scope.spot I (t.seen s) [] stencil args))
        (I.fit (p.storeBits stencil) (p.scope.meaning I (t.seen s) [] value)))⟩

/-- Carry out some actions. -/
def run (t : Timing V) (s : Signals V) (actions : List Action) : Signals V :=
  actions.foldl (p.step I t) s

/-- Whether a stencil is one of the nest itself, other than the window. -/
def isLocal (stencil : String) : Bool :=
  stencil ≠ p.output.stencil && p.stencils.any fun l => l.name = stencil

end StagePlan

namespace Action

/-- Whether an action binds a name. -/
def binds (name : String) : Action → Bool
  | .letIn bound _ => bound = name
  | .provide _ _ _ => false

end Action

/-- What a body finds: the inputs and the window as it is so far. The names it binds
    and the local stencils hold anything. -/
def StagePlan.start (p : StagePlan) {V : Type} (σ anything : Signals V) : Signals V :=
  ⟨fun name => if p.actions.any (Action.binds name) then anything.value name else σ.value name,
    fun stencil => if p.isLocal stencil then anything.element stencil else σ.element stencil⟩

namespace Scope

variable (s : Scope) {V : Type} (I : Interpretation V) (σ : Signals V) (known : Signals Prop)

mutual

/-- Everything an expression reads is among some signals. -/
def sees (bound : List (String × V)) : Expr → Prop
  | .intImm _ _ => True
  | .uintImm _ _ => True
  | .floatImm _ _ => True
  | .textImm _ => True
  | .var _ name => boundValue? bound (printName name) = none → known.value (printName name)
  | .cast _ value => sees bound value
  | .binary _ a b => sees bound a ∧ sees bound b
  | .not a => sees bound a
  | .select condition ifTrue ifFalse =>
      sees bound condition ∧ sees bound ifTrue ∧ sees bound ifFalse
  | .letIn name value body =>
      sees bound value ∧ sees ((printName name, s.meaning I σ bound value) :: bound) body
  | .call _ name args callType =>
      seesAll bound args ∧ ((callType = .access || isStencilName name) = true →
        known.element (printName name) ((s.spot I σ bound name args).flat I))
  | .load _ _ _ => True

/-- So is everything some expressions read. -/
def seesAll (bound : List (String × V)) : List Expr → Prop
  | [] => True
  | e :: rest => sees bound e ∧ seesAll bound rest

end

/-- Some signals are the same in both. -/
structure Agree (τ : Signals V) : Prop where
  value : ∀ name, known.value name → τ.value name = σ.value name
  element : ∀ stencil place, known.element stencil place →
    τ.element stencil place = σ.element stencil place

variable {s I σ known} {τ : Signals V}

theorem variableMeaning_congr (h : Agree σ known τ) (bound : List (String × V))
    (type : ScalarType) (name : String)
    (hsees : boundValue? bound (printName name) = none → known.value (printName name)) :
    s.variableMeaning I τ bound type name = s.variableMeaning I σ bound type name := by
  unfold variableMeaning
  cases hbound : boundValue? bound (printName name) with
  | some v => simp only [hbound]
  | none => simp only [hbound, h.value _ (hsees hbound)]

mutual

/-- An expression means what the signals it reads tell. -/
theorem meaning_congr (h : Agree σ known τ) : ∀ (e : Expr) (bound : List (String × V)),
    s.sees I σ known bound e → s.meaning I τ bound e = s.meaning I σ bound e
  | .intImm _ _, _, _ => by rw [meaning, meaning]
  | .uintImm _ _, _, _ => by rw [meaning, meaning]
  | .floatImm _ _, _, _ => by rw [meaning, meaning]
  | .textImm _, _, _ => by rw [meaning, meaning]
  | .var type name, bound, hsees => by
      rw [sees] at hsees
      rw [meaning, meaning, variableMeaning_congr h bound type name hsees]
  | .cast _ value, bound, hsees => by
      rw [sees] at hsees
      rw [meaning, meaning, meaning_congr h value bound hsees]
  | .binary _ a b, bound, hsees => by
      rw [sees] at hsees
      rw [meaning, meaning, meaning_congr h a bound hsees.1, meaning_congr h b bound hsees.2]
  | .not a, bound, hsees => by
      rw [sees] at hsees
      rw [meaning, meaning, meaning_congr h a bound hsees]
  | .select condition ifTrue ifFalse, bound, hsees => by
      rw [sees] at hsees
      rcases hsees with ⟨hc, ht, hf⟩
      rw [meaning, meaning, meaning_congr h condition bound hc, meaning_congr h ifTrue bound ht,
        meaning_congr h ifFalse bound hf]
  | .letIn name value body, bound, hsees => by
      rw [sees] at hsees
      rw [meaning, meaning, meaning_congr h value bound hsees.1, meaning_congr h body _ hsees.2]
  | .call type name args callType, bound, hsees => by
      rw [sees] at hsees
      rcases hsees with ⟨hargs, helement⟩
      by_cases haccess : (callType = .access || isStencilName name) = true
      · have hspot : s.spot I τ bound name args = s.spot I σ bound name args := by
          unfold spot
          rw [coordinateValues_congr h args bound hargs]
        rw [meaning_access _ _ _ _ _ _ _ _ haccess, meaning_access _ _ _ _ _ _ _ _ haccess,
          hspot, h.element _ _ (helement haccess)]
      · rw [meaning, meaning, if_neg haccess, if_neg haccess, meanings_congr h args bound hargs]
  | .load _ _ _, _, _ => by rw [meaning, meaning]

/-- So do some expressions. -/
theorem meanings_congr (h : Agree σ known τ) : ∀ (es : List Expr) (bound : List (String × V)),
    s.seesAll I σ known bound es → s.meanings I τ bound es = s.meanings I σ bound es
  | [], _, _ => by rw [meanings, meanings]
  | e :: rest, bound, hsees => by
      rw [seesAll] at hsees
      rw [meanings, meanings, meaning_congr h e bound hsees.1, meanings_congr h rest bound hsees.2]

/-- And so do coordinates. -/
theorem coordinateValues_congr (h : Agree σ known τ) :
    ∀ (es : List Expr) (bound : List (String × V)), s.seesAll I σ known bound es →
      s.coordinateValues I τ bound es = s.coordinateValues I σ bound es
  | [], _, _ => by rw [coordinateValues, coordinateValues]
  | e :: rest, bound, hsees => by
      rw [seesAll] at hsees
      rw [coordinateValues, coordinateValues, coordinateValues_congr h rest bound hsees.2]
      cases hconstant : e.constant? with
      | some c => rfl
      | none =>
          simp only []
          rw [meaning_congr h e bound hsees.1]

end

/-- The place of an access is where its coordinates say. -/
theorem spot_congr (h : Agree σ known τ) (bound : List (String × V)) (name : String)
    (args : List Expr) (hsees : s.seesAll I σ known bound args) :
    s.spot I τ bound name args = s.spot I σ bound name args := by
  unfold spot
  rw [coordinateValues_congr h args bound hsees]

end Scope

namespace StagePlan

variable (p : StagePlan) {V : Type} (I : Interpretation V)

/-- Whether an action stores into an element at a place known in advance. -/
def storesInto (stencil : String) (place : Nat) : Action → Bool
  | .letIn _ _ => false
  | .provide stored args _ =>
      stored = stencil && (args.mapM Expr.constant?).map (flatPlace (p.scope.extentsOf stored))
        = some place

/-- The signals that have their value throughout the load, after stores into some
    elements and before some actions. An element of the window is as the load has
    found it until a store, a local element is settled from its last store on, and a
    name from its binding on. -/
def lasting (stored : List (String × Nat)) (pending : List Action) : Signals Prop where
  value name := ∀ a ∈ pending, a.binds name = false
  element stencil place :=
    (stencil = p.output.stencil → (stencil, place) ∉ stored) ∧
      (p.isLocal stencil = true →
        (stencil, place) ∈ stored ∧ ∀ a ∈ pending, p.storesInto stencil place a = false)

/-- No read sees a store too early or too late, and stores stay inside their
    stencils. -/
def InOrder (s : Signals V) (stored : List (String × Nat)) : List Action → Prop
  | [] => True
  | .letIn name value :: rest =>
      p.scope.sees I s (p.lasting stored (.letIn name value :: rest)) [] value ∧
        InOrder (p.step I (.inOrder I) s (.letIn name value)) stored rest
  | .provide stencil args value :: rest =>
      p.scope.sees I s (p.lasting stored (.provide stencil args value :: rest)) [] value ∧
        p.scope.seesAll I s (p.lasting stored (.provide stencil args value :: rest)) [] args ∧
        (∃ shape, p.storeShape? stencil = some shape ∧
          (p.scope.spot I s [] stencil args).flat I < shape.extents.prod) ∧
        InOrder (p.step I (.inOrder I) s (.provide stencil args value))
          ((stencil, (p.scope.spot I s [] stencil args).flat I) :: stored) rest

end StagePlan

end StencilRtl
