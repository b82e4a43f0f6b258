import StencilRtl.Netlist.OfKernel
import StencilRtl.Proofs.Netlist.Steps
import StencilRtl.Proofs.Registers.Allocation

/-!
# Refusals

Nobody but the last check of a design speaks of a circle of streams.

Whether streams run in a circle is asked once, when the design is complete. Until then there
are many reasons to refuse a kernel, and this is none of them: a computation is *calm* if it
does not report a circle, whatever else it may come to. A computation that is put together
from calm ones is calm, and so it is enough to go through the reports that are written out.

A computation that keeps a state has to be calm in every state.

## Main definitions

* `Fallible.Calm`, `Calmly`: A computation that does not report a circle of streams.

## Theorems

* `Fallible.Calm.bind`, `Calmly.bind` and the like: What is put together from calm computations.
* `Construction.calm_operation`, `Construction.calm_statement`: Reading a kernel is calm.
* `Netlist.calm_flowEdge`, `Netlist.calm_checkConnection` and the like: So are the other checks.
-/

namespace StencilRtl

/-- A computation that does not report a circle of streams. -/
def Fallible.Calm {α : Type} (x : Fallible α) : Prop :=
  x ≠ .error (.error (.malformed .combinationalCycle))

/-- The same of a computation that keeps a state, whatever its state is. -/
def Calmly {σ α : Type} (m : StateT σ Fallible α) : Prop := ∀ s, Fallible.Calm (m s)

namespace Fallible

variable {α β : Type}

namespace Calm

theorem ok (a : α) : Calm (.ok a) := by simp [Calm]

theorem pure (a : α) : Calm (Pure.pure a : Fallible α) := ok a

/-- The failure of a calm computation may be handed on. -/
theorem error {x : Fallible α} {failure : Failure} (hx : Calm x) (h : x = .error failure) :
    Calm (.error failure : Fallible β) :=
  fun hcircle => hx (h.trans (congrArg Except.error (Except.error.inj hcircle)))

/-- Two computations one after the other, of which the second one may rely on the first one. -/
theorem bind_ok {x : Fallible α} {f : α → Fallible β} (hx : Calm x)
    (hf : ∀ a, x = .ok a → Calm (f a)) : Calm (x >>= f) := by
  cases x with
  | error e => exact hx.error rfl
  | ok a => exact hf a rfl

theorem bind {x : Fallible α} {f : α → Fallible β} (hx : Calm x) (hf : ∀ a, Calm (f a)) :
    Calm (x >>= f) := hx.bind_ok fun a _ => hf a

theorem foldlM {f : β → α → Fallible β} (hf : ∀ b a, Calm (f b a)) (xs : List α) (b : β) :
    Calm (xs.foldlM f b) := by
  induction xs generalizing b with
  | nil => exact ok b
  | cons x rest ih =>
      rw [List.foldlM_cons]
      exact (hf b x).bind ih

theorem mapM {f : α → Fallible β} (hf : ∀ a, Calm (f a)) (xs : List α) : Calm (xs.mapM f) := by
  induction xs with
  | nil => exact ok []
  | cons x rest ih =>
      rw [List.mapM_cons]
      exact (hf x).bind fun _ => ih.bind fun _ => .pure _

theorem forM {f : α → Fallible Unit} (hf : ∀ a, Calm (f a)) (xs : List α) : Calm (xs.forM f) := by
  induction xs with
  | nil => exact ok ()
  | cons x rest ih => exact (hf x).bind fun _ => ih

end Calm

@[simp]
theorem calm_ok (a : α) : Calm (.ok a) := .ok a

@[simp]
theorem calm_pure (a : α) : Calm (pure a : Fallible α) := .pure a

@[simp]
theorem calm_unsupported (cause : Unsupported) : Calm (unsupported cause : Fallible α) := by
  simp [Calm, unsupported]

@[simp]
theorem calm_undefinedName (name role : String) : Calm (undefinedName name role : Fallible α) := by
  simp [Calm, undefinedName]

@[simp]
theorem calm_giveWay (fault : Fault) : Calm (giveWay fault : Fallible α) := by
  simp [Calm, giveWay]

/-- Of the broken invariants only one is a circle. -/
@[simp]
theorem calm_malformed {cause : Malformed} :
    Calm (malformed cause : Fallible α) ↔ cause ≠ .combinationalCycle := by
  simp [Calm, malformed]

end Fallible

open Fallible

section

variable {σ α β : Type}

namespace Calmly

theorem pure (a : α) : Calmly (Pure.pure a : StateT σ Fallible α) := fun s => .ok (a, s)

theorem bind {m : StateT σ Fallible α} {f : α → StateT σ Fallible β} (hm : Calmly m)
    (hf : ∀ a, Calmly (f a)) : Calmly (m >>= f) := fun s => (hm s).bind fun r => hf r.1 r.2

/-- A computation that keeps no state. -/
theorem lift {x : Fallible α} (hx : Calm x) : Calmly (liftM x : StateT σ Fallible α) :=
  fun _ => hx.bind fun _ => .pure _

theorem get : Calmly (MonadState.get : StateT σ Fallible σ) := fun s => .ok (s, s)

theorem change (f : σ → σ) : Calmly (modify f : StateT σ Fallible PUnit) := fun s => .ok (_, f s)

theorem set (s : σ) : Calmly (MonadStateOf.set s : StateT σ Fallible PUnit) := fun _ => .ok (_, s)

theorem forM {f : α → StateT σ Fallible Unit} (hf : ∀ a, Calmly (f a)) (xs : List α) :
    Calmly (xs.forM f) := by
  induction xs with
  | nil => exact .pure ()
  | cons x rest ih => exact (hf x).bind fun _ => ih

theorem foldlM {f : β → α → StateT σ Fallible β} (hf : ∀ b a, Calmly (f b a)) (xs : List α) (b : β) :
    Calmly (xs.foldlM f b) := by
  induction xs generalizing b with
  | nil => exact .pure b
  | cons x rest ih =>
      rw [List.foldlM_cons]
      exact (hf b x).bind ih

end Calmly

end

/-! ### Words and shapes -/

namespace Word

theorem calm_mul (a b : Nat) : Calm (mul a b) := by
  unfold mul fit
  split <;> simp

theorem calm_add (a b : Nat) : Calm (add a b) := by
  unfold add fit
  split <;> simp

theorem calm_product (sizes : List Nat) : Calm (product sizes) := .foldlM calm_mul sizes 1

end Word

theorem SignedWord.calm_add (a b : Int) : Calm (SignedWord.add a b) := by
  unfold SignedWord.add
  split <;> simp

theorem ElemType.calm_ofScalar (t : ScalarType) : Calm (ElemType.ofScalar t) := by
  unfold ElemType.ofScalar
  split <;> simp

namespace Shape

theorem calm_dataWidth (s : Shape) : Calm s.dataWidth :=
  (Word.calm_product _).bind fun _ => Word.calm_mul _ _

theorem calm_validate (s : Shape) : Calm s.validate := by
  unfold validate
  repeat' split
  all_goals simp

theorem calm_extentOfBound (b : Interval) : Calm (extentOfBound b) := by
  unfold extentOfBound
  repeat' split
  all_goals simp

theorem calm_ofStencilType (t : StencilType) : Calm (ofStencilType t) :=
  (ElemType.calm_ofScalar _).bind fun _ => (Calm.mapM calm_extentOfBound _).bind fun _ =>
    (calm_validate _).bind fun _ => .pure _

end Shape

/-! ### Register maps -/

theorem RegisterEntry.calm_past (e : RegisterEntry) : Calm e.past :=
  .bind (.bind (Word.calm_product _) fun _ => Word.calm_mul _ _) fun _ => Word.calm_add _ _

namespace RegisterMap

theorem calm_checkLast (m : RegisterMap) : Calm m.checkLast := by
  unfold checkLast
  split
  · refine (RegisterEntry.calm_past _).bind fun past => ?_
    split <;> simp
  · simp

theorem calm_allocate (m : RegisterMap) (name : String) (shape : Shape) :
    Calm (m.allocate name shape) := by
  -- The entry is placed first, and all that can go wrong goes wrong there.
  have hplace : Calm ((place name shape).run.run m).1 := by
    rw [run_place]
    split
    · simp
    split
    · simp
    have hpast := (m.entryFor name shape).calm_past
    split
    · next failure hfailed => exact hpast.error hfailed
    next past _ =>
    have hlast := (⟨m.entries ++ [m.entryFor name shape], past⟩ : RegisterMap).calm_checkLast
    split
    · next failure hfailed => exact hlast.error hfailed
    · exact .ok _
  unfold allocate
  rcases hrun : (place name shape).run.run m with ⟨result, placed⟩
  rw [hrun] at hplace
  cases result with
  | ok entry => exact .ok _
  | error failure => exact hplace.error rfl

theorem calm_validateFrom (m : RegisterMap) (past : Nat) (entries : List RegisterEntry) :
    Calm (m.validateFrom past entries) := by
  induction entries generalizing past with
  | nil => exact .ok ()
  | cons e rest ih =>
      unfold validateFrom
      split
      · simp
      · refine (RegisterEntry.calm_past e).bind fun next => ?_
        split
        · simp
        · exact ih next

theorem calm_validate (m : RegisterMap) : Calm m.validate := m.calm_validateFrom _ _

end RegisterMap

/-! ### Designs -/

namespace Component

theorem calm_addInput (c : Component) (name : String) (shape : Shape) :
    Calm (c.addInput name shape) := by
  unfold addInput
  split <;> simp

theorem calm_addOutput (c : Component) (name : String) (shape : Shape) :
    Calm (c.addOutput name shape) := by
  unfold addOutput
  split <;> simp

theorem calm_addInputs (c : Component) (ports : List (String × Shape)) :
    Calm (c.addInputs ports) := .foldlM (fun c _ => c.calm_addInput _ _) ports c

end Component

namespace Netlist

variable (n : Netlist)

theorem calm_addComponent (c : Component) : Calm (n.addComponent c) := by
  unfold addComponent
  split <;> simp

theorem calm_component (index : Nat) : Calm (n.component index) := by
  unfold component
  split <;> simp

theorem calm_addPort (name : String) (shape : Shape) (direction : Direction) :
    Calm (n.addPort name shape direction) := by
  unfold addPort
  split <;> simp

theorem calm_addWire (name : String) (shape : Shape) : Calm (n.addWire name shape) := by
  refine shape.calm_validate.bind fun _ => ?_
  split <;> simp

theorem calm_endpoint (e : Endpoint) : Calm (n.endpoint e) := by
  cases e with
  | top name =>
      rw [endpoint]
      repeat' split
      all_goals simp
  | port index name =>
      refine (n.calm_component index).bind fun c => ?_
      split <;> simp

theorem calm_signalBase (e : Endpoint) : Calm (n.signalBase e) := by
  cases e with
  | top name => exact .ok name
  | port index name => exact (n.calm_component index).bind fun _ => .pure _

theorem calm_carrySame (a b : Shape) : Calm (carrySame a b) := by
  unfold carrySame
  split
  · simp
  split
  · simp
  · exact a.calm_dataWidth.bind fun _ => b.calm_dataWidth.bind fun _ => .pure _

theorem calm_checkConnection (c : Connection) : Calm (n.checkConnection c) := by
  refine (n.calm_endpoint _).bind fun ⟨targetShape, targetDirection⟩ => ?_
  simp only []
  split
  · exact (n.calm_signalBase _).bind fun _ => by simp
  split
  · simp
  next source _ =>
  refine (n.calm_endpoint source).bind fun ⟨sourceShape, sourceDirection⟩ => ?_
  simp only []
  split
  · exact (n.calm_signalBase _).bind fun _ => by simp
  refine (calm_carrySame _ _).bind fun same => ?_
  split
  · simp
  · exact (n.calm_signalBase _).bind fun _ => (n.calm_signalBase _).bind fun _ => by simp

theorem calm_checkWire (wire : String × Shape) : Calm (n.checkWire wire) := by
  unfold checkWire
  repeat' split
  all_goals simp

theorem calm_checkComponent (component : Component × Nat) : Calm (n.checkComponent component) := by
  unfold checkComponent
  simp only []
  split <;> simp

theorem calm_flowNode (e : Endpoint) : Calm (n.flowNode e) := by
  cases e with
  | top name => exact .ok _
  | port index name => exact (n.calm_component index).bind fun _ => .pure _

theorem calm_flowEdge (c : Connection) : Calm (n.flowEdge c) := by
  unfold flowEdge
  split
  · simp
  split
  · simp
  · simp
  split
  · refine (n.calm_flowNode _).bind fun start => (n.calm_flowNode _).bind fun finish => ?_
    split <;> simp
  · simp

end Netlist

/-! ### Loop nests and stages -/

theorem StagePlan.calm_validate (p : StagePlan) : Calm p.validate := by
  unfold validate
  repeat' split
  all_goals simp

namespace LoopNest

variable (n : LoopNest)

theorem calm_constantBound (name bound : String) (e : Expr) : Calm (constantBound name bound e) := by
  unfold constantBound
  split <;> simp

theorem calm_enterLoop (name : String) (min extent : Expr) (body : Stmt) :
    Calm (n.enterLoop name min extent body) := by
  refine (calm_constantBound _ _ _).bind fun _ => (calm_constantBound _ _ _).bind fun _ => ?_
  split
  · exact (SignedWord.calm_add _ _).bind fun _ => by simp
  · simp only []
    repeat' split
    all_goals simp

theorem calm_stencilExtent (name : String) (b : Interval) : Calm (stencilExtent name b) := by
  unfold stencilExtent
  split
  · exact (SignedWord.calm_add _ _).bind fun _ => by simp
  · simp

theorem calm_stencilShape (name : String) (types : List ScalarType) (bounds : List Interval) :
    Calm (stencilShape name types bounds) := by
  unfold stencilShape
  split
  · exact (Calm.mapM (calm_stencilExtent name) _).bind fun _ =>
      (ElemType.calm_ofScalar _).bind fun _ => .pure _
  · simp

theorem calm_realize (name : String) (types : List ScalarType) (bounds : List Interval) :
    Calm (n.realize name types bounds) := by
  refine (calm_stencilShape _ _ _).bind fun _ => ?_
  simp only []
  split <;> simp

theorem calm_provide (name : String) (values args : List Expr) :
    Calm (n.provide name values args) := by
  unfold provide
  repeat' split
  all_goals simp

theorem calm_bind (name : String) (value : Expr) : Calm (n.bind name value) := by
  unfold bind
  simp only []
  split <;> simp

theorem calm_read (call : ReadStream) (shape : Shape) : Calm (n.read call shape) := by
  unfold read
  repeat' split
  all_goals simp

theorem calm_write (call : WriteStream) (shape : Shape) : Calm (n.write call shape) := by
  unfold write
  split <;> simp

theorem calm_finish (params : List (String × Shape)) : Calm (n.finish params) := by
  unfold finish
  split
  · simp
  · exact (StagePlan.calm_validate _).bind fun _ => .pure _

end LoopNest

/-! ### Operands -/

namespace Operands

theorem calm_next : Calmly next := by
  refine Calmly.get.bind fun o => ?_
  split
  · exact .lift (by simp)
  · exact (Calmly.set _).bind fun _ => .pure _

theorem calm_buffer : Calmly buffer := by
  refine calm_next.bind fun ⟨position, e⟩ => ?_
  simp only []
  split
  · exact .pure _
  · exact Calmly.get.bind fun _ => .lift (by simp)

theorem calm_text : Calmly text := by
  refine calm_next.bind fun ⟨position, e⟩ => ?_
  simp only []
  split
  · exact .pure _
  · exact Calmly.get.bind fun _ => .lift (by simp)

theorem calm_atLeast (least : Int) : Calmly (atLeast least) := by
  refine calm_next.bind fun ⟨position, e⟩ => ?_
  simp only []
  split
  · exact Calmly.get.bind fun _ => .lift (by simp)
  split
  · exact Calmly.get.bind fun _ => .lift (by simp)
  · exact .pure _

theorem calm_remaining : Calmly remaining := Calmly.get.bind fun _ => .pure _

theorem calm_finish : Calmly finish := by
  refine calm_remaining.bind fun count => ?_
  split
  · exact Calmly.get.bind fun _ => .lift (by simp)
  · exact .pure _

theorem calm_times {α : Type} {item : Reading α} (hitem : Calmly item) (count : Nat) :
    Calmly (times item count) := by
  induction count with
  | zero => exact .pure _
  | succ count ih => exact hitem.bind fun _ => ih.bind fun _ => .pure _

theorem calm_untilEmpty {α : Type} {item : Reading α} (hitem : Calmly item) (most : Nat) :
    Calmly (untilEmpty item most) := by
  induction most with
  | zero => exact .pure _
  | succ most ih =>
      refine calm_remaining.bind fun count => ?_
      split
      · exact .pure _
      · exact hitem.bind fun _ => ih.bind fun _ => .pure _

theorem calm_toEnd {α : Type} {item : Reading α} (hitem : Calmly item) : Calmly (toEnd item) :=
  calm_remaining.bind (calm_untilEmpty hitem)

theorem calm_read {α : Type} {reading : Reading α} (h : Calmly reading) (call : String)
    (args : List Expr) : Calm (read call reading args) := by
  have hrun : read call reading args = reading (ofCall call args) >>= fun r => .ok r.1 := by
    unfold read StateT.run'
    cases reading (ofCall call args) <;> rfl
  rw [hrun]
  exact (h _).bind fun _ => .ok _

end Operands

section Calls

open Operands

theorem ReadStream.calm_ofArgs (args : List Expr) : Calm (ReadStream.ofArgs args) := by
  refine calm_read (calm_buffer.bind fun _ => calm_buffer.bind fun _ =>
    calm_remaining.bind fun count => ?_) _ _
  split
  · exact calm_text.bind fun _ => calm_finish.bind fun _ => .pure _
  · exact calm_finish.bind fun _ => .pure _

theorem WriteStream.calm_ofArgs (args : List Expr) : Calm (WriteStream.ofArgs args) := by
  have hextent : Calmly WriteStream.loopExtent :=
    calm_text.bind fun _ => (calm_atLeast 0).bind fun _ => .pure _
  exact calm_read (calm_buffer.bind fun _ => calm_buffer.bind fun _ =>
    (calm_toEnd hextent).bind fun _ => .pure _) _ _

theorem LineBufferCall.calm_ofArgs (args : List Expr) : Calm (LineBufferCall.ofArgs args) := by
  refine calm_read (calm_buffer.bind fun _ => calm_buffer.bind fun _ =>
    (calm_toEnd (calm_atLeast 1)).bind fun storeExtents => ?_) _ _
  split
  · exact (Calmly.lift (by simp)).bind fun _ => .pure _
  · exact .pure _

theorem DispatchCall.calm_ofArgs (args : List Expr) : Calm (DispatchCall.ofArgs args) := by
  have hdimension : Calmly DispatchCall.dimension :=
    (calm_atLeast 1).bind fun _ => (calm_atLeast 1).bind fun _ => (calm_atLeast 1).bind fun _ =>
      .pure _
  have hbox : Calmly DispatchCall.boxDimension :=
    (calm_atLeast 0).bind fun _ => (calm_atLeast 1).bind fun _ => .pure _
  have hconsumer : ∀ rank, Calmly (DispatchCall.consumer rank) := fun rank =>
    calm_text.bind fun _ => (calm_atLeast 0).bind fun _ => (calm_times hbox rank).bind fun _ =>
      .pure _
  refine calm_read (calm_buffer.bind fun _ => (calm_atLeast 1).bind fun rank =>
    (calm_times hdimension rank).bind fun _ => (calm_atLeast 1).bind fun count => ?_) _ _
  split
  · exact (Calmly.lift (by simp)).bind fun _ => (calm_times (hconsumer rank) count).bind fun _ =>
      calm_finish.bind fun _ => .pure _
  · exact (calm_times (hconsumer rank) count).bind fun _ => calm_finish.bind fun _ => .pure _

end Calls

/-! ### Constructions -/

namespace Construction

theorem calm_tryUpdate {change : Netlist → Fallible Netlist} (hchange : ∀ n, Calm (change n)) :
    Calmly (tryUpdate change) :=
  Calmly.get.bind fun _ => (Calmly.lift (hchange _)).bind fun _ => .change _

theorem calm_connect (target source : Endpoint) : Calmly (connect target source) := .change _

theorem calm_addWire (name : String) (shape : Shape) : Calmly (addWire name shape) :=
  calm_tryUpdate fun n => n.calm_addWire name shape

theorem calm_addPort (name : String) (shape : Shape) (direction : Direction) :
    Calmly (addPort name shape direction) := calm_tryUpdate fun n => n.calm_addPort _ _ _

theorem calm_addComponent (component : Component) : Calmly (addComponent component) :=
  Calmly.get.bind fun c => (Calmly.lift (c.netlist.calm_addComponent component)).bind fun _ =>
    (Calmly.change _).bind fun _ => .pure _

theorem calm_updateSlave {change : Component → Fallible Component}
    (hchange : ∀ s, Calm (change s)) : Calmly (updateSlave change) :=
  Calmly.get.bind fun _ => calm_tryUpdate fun n => (n.calm_component _).bind fun s =>
    (hchange s).bind fun _ => .pure _

theorem calm_slavePort (name : String) : Calmly (slavePort name) :=
  Calmly.get.bind fun _ => .pure _

theorem calm_addStateful (component : Component) : Calmly (addStateful component) :=
  (calm_addComponent _).bind fun _ =>
    (calm_updateSlave fun s => s.calm_addInput _ _).bind fun _ => (calm_slavePort _).bind fun _ =>
      (calm_connect _ _).bind fun _ => (calm_slavePort _).bind fun _ =>
        (calm_connect _ _).bind fun _ => .pure _

theorem calm_driveQueued (stream : String) (shape : Shape) (source : Endpoint) :
    Calmly (driveQueued stream shape source) :=
  (Calmly.lift (Component.calm_addInput _ _ _)).bind fun q =>
    (Calmly.lift (q.calm_addOutput _ _)).bind fun q => (calm_addComponent q).bind fun _ =>
      (calm_connect _ _).bind fun _ => calm_connect _ _

theorem calm_addQueued (stream : String) (shape : Shape) (source : Endpoint) :
    Calmly (addQueued stream shape source) := by
  have hdrive := calm_driveQueued stream shape source
  refine Calmly.get.bind fun c => ?_
  split
  · exact (calm_addWire _ _).bind fun _ => hdrive
  · exact hdrive

theorem calm_streamShape (stream : String) : Calmly (streamShape stream) := by
  refine Calmly.get.bind fun c => ?_
  split
  · exact .pure _
  · exact .lift (by simp)

theorem calm_addParameter (arg : Argument) (shape : Shape) :
    Calmly (addParameter arg shape) := by
  unfold addParameter
  split
  · exact .lift (by simp)
  · exact (calm_tryUpdate fun n => (n.registers.calm_allocate _ _).bind fun _ => .pure _).bind
      fun _ => (calm_updateSlave fun s => s.calm_addOutput _ _).bind fun _ =>
        (calm_addWire _ _).bind fun _ => (calm_slavePort _).bind fun _ => calm_connect _ _

theorem calm_addInputStream (arg : Argument) (shape : Shape) :
    Calmly (addInputStream arg shape) :=
  (Calmly.lift (Component.calm_addInput _ _ _)).bind fun a =>
    (Calmly.lift (a.calm_addOutput _ _)).bind fun _ => (calm_addStateful _).bind fun _ =>
      (calm_addPort _ _ _).bind fun _ => (calm_connect _ _).bind fun _ => calm_addQueued _ _ _

theorem calm_addArgument (arg : Argument) : Calmly (addArgument arg) := by
  refine (Calmly.lift (Shape.calm_ofStencilType _)).bind fun shape => ?_
  split
  · exact calm_addParameter arg shape
  split
  · exact .lift (by simp)
  split
  · exact (Calmly.change _).bind fun _ => calm_addWire _ _
  · exact calm_addInputStream arg shape

theorem calm_lineBuffer (call : LineBufferCall) : Calmly (lineBuffer call) := by
  refine (calm_streamShape _).bind fun input => (calm_streamShape _).bind fun output => ?_
  split
  · exact .lift (by simp)
  · exact (Calmly.lift (Component.calm_addInput _ _ _)).bind fun b =>
      (Calmly.lift (b.calm_addOutput _ _)).bind fun _ => (calm_addComponent _).bind fun _ =>
        (calm_connect _ _).bind fun _ => calm_addQueued _ _ _

theorem calm_addRouter (call : DispatchCall) (shape : Shape) : Calmly (addRouter call shape) :=
  (Calmly.lift (Component.calm_addInput _ _ _)).bind fun _ =>
    (Calmly.foldlM (fun r _ => .lift (r.calm_addOutput _ _)) _ _).bind fun _ =>
      (calm_addStateful _).bind fun _ => (calm_connect _ _).bind fun _ =>
        .forM (fun _ => calm_addQueued _ _ _) _

theorem calm_dispatch (call : DispatchCall) : Calmly (dispatch call) := by
  refine (calm_streamShape _).bind fun shape => ?_
  split
  · exact (calm_addWire _ _).bind fun _ => calm_connect _ _
  · exact calm_addRouter call shape

theorem calm_updateNest {change : LoopNest → Fallible LoopNest} (hchange : ∀ n, Calm (change n))
    (outside : Unsupported) : Calmly (updateNest change outside) := by
  refine Calmly.get.bind fun c => ?_
  split
  · exact .lift (by simp)
  · exact (Calmly.lift (hchange _)).bind fun _ => .change _

theorem calm_operation (name : String) (args : List Expr) : Calmly (operation name args) := by
  unfold operation
  split
  · exact (Calmly.lift (ReadStream.calm_ofArgs args)).bind fun call =>
      (calm_streamShape _).bind fun shape => calm_updateNest (fun n => n.calm_read call shape) _
  split
  · exact (Calmly.lift (WriteStream.calm_ofArgs args)).bind fun call =>
      (calm_streamShape _).bind fun shape => calm_updateNest (fun n => n.calm_write call shape) _
  split
  · exact (Calmly.lift (LineBufferCall.calm_ofArgs args)).bind calm_lineBuffer
  split
  · exact (Calmly.lift (DispatchCall.calm_ofArgs args)).bind calm_dispatch
  · exact .lift (by simp)

theorem calm_parameters (n : Netlist) (nest : LoopNest) (names : List String) :
    Calm (parameters n nest names) := by
  induction names with
  | nil => exact .ok []
  | cons name rest ih =>
      rw [parameters]
      split
      · exact ih
      split
      · exact ih.bind fun _ => .pure _
      · simp

theorem calm_stageComponent (plan : StagePlan) : Calm (stageComponent plan) :=
  (Component.calm_addInputs _ _).bind fun s => (s.calm_addInputs _).bind fun s =>
    s.calm_addOutput _ _

theorem calm_addOutputAdapter (output : NestOutput) (storeExtents : List Nat) :
    Calmly (addOutputAdapter output storeExtents) :=
  (Calmly.lift (Shape.calm_validate _)).bind fun _ =>
    (Calmly.lift (Component.calm_addInput _ _ _)).bind fun a =>
      (Calmly.lift (a.calm_addOutput _ _)).bind fun _ => (calm_addStateful _).bind fun _ =>
        (calm_addPort _ _ _).bind fun _ => (calm_connect _ _).bind fun _ => calm_connect _ _

theorem calm_addStage (nest : LoopNest) : Calmly (addStage nest) := by
  refine Calmly.get.bind fun c => (Calmly.lift (calm_parameters _ _ _)).bind fun params =>
    (Calmly.lift (nest.calm_finish params)).bind fun ⟨plan, output⟩ =>
      (Calmly.lift (calm_stageComponent plan)).bind fun _ => (calm_addStateful _).bind fun _ =>
        (Calmly.forM (fun _ => calm_connect _ _) _).bind fun _ =>
          (Calmly.forM (fun _ => calm_connect _ _) _).bind fun _ =>
            (calm_addQueued _ _ _).bind fun _ => Calmly.get.bind fun _ =>
              (Calmly.change _).bind fun _ => ?_
  split
  · exact calm_addOutputAdapter _ _
  · exact .pure _

theorem calm_realizedShape (name : String) (types : List ScalarType) (bounds : List Interval) :
    Calm (realizedShape name types bounds) := by
  have hextent : ∀ b, Calm (streamExtent name b) := by
    intro b
    unfold streamExtent
    split <;> simp
  unfold realizedShape
  split
  · exact (ElemType.calm_ofScalar _).bind fun _ => (Calm.mapM hextent _).bind fun _ => .pure _
  · simp

theorem calm_realize (name : String) (types : List ScalarType) (bounds : List Interval) :
    Calmly (realize name types bounds) := by
  unfold realize
  split
  · exact (Calmly.lift (calm_realizedShape _ _ _)).bind fun _ => calm_addWire _ _
  split
  · exact calm_updateNest (fun n => n.calm_realize name types bounds) _
  · exact .lift (by simp)

theorem calm_endNest : Calmly endNest := by
  refine Calmly.get.bind fun c => ?_
  split
  · exact .pure _
  · exact (Calmly.change _).bind fun _ => calm_addStage _

theorem calm_evaluate (e : Expr) : Calmly (evaluate e) := by
  unfold evaluate
  split
  · exact calm_operation _ _
  split
  · exact .pure _
  · exact .lift (by simp)

section Inside

variable {inner : Constructing Unit} (hinner : Calmly inner)

include hinner

theorem calm_inProducer (name : String) : Calmly (inProducer name inner) := by
  refine Calmly.get.bind fun c => ?_
  split
  · exact (Calmly.change _).bind fun _ => hinner.bind fun _ => .change _
  · exact hinner.bind fun _ => .change _

theorem calm_loop (name : String) (min extent : Expr) (body : Stmt) :
    Calmly (loop name min extent body inner) := by
  refine Calmly.get.bind fun c => ?_
  split
  · exact (Calmly.lift (LoopNest.calm_enterLoop _ _ _ _ _)).bind fun _ =>
      (Calmly.change _).bind fun _ => hinner
  · exact (Calmly.get.bind fun _ => .pure _).bind fun nest =>
      (Calmly.lift (nest.calm_enterLoop _ _ _ _)).bind fun _ => (Calmly.change _).bind fun _ =>
        hinner.bind fun _ => calm_endNest

theorem calm_branch (condition : Expr) (thenCase : Stmt) (hasElse : Bool) :
    Calmly (branch condition thenCase hasElse inner) := by
  refine Calmly.get.bind fun c => ?_
  split
  · exact .lift (by simp)
  split
  · exact hinner
  split
  · exact (Calmly.change _).bind fun _ => hinner.bind fun _ => .change _
  · exact .lift (by simp)

end Inside

mutual

/-- Reading a statement does not report a circle of streams. -/
theorem calm_statement : ∀ s : Stmt, Calmly (statement s)
  | .producer name _ body => calm_inProducer (calm_statement body) name
  | .block stmts => calm_statements stmts
  | .loop name min extent kind body => by
      unfold statement
      split
      · exact .lift (by simp)
      · exact calm_loop (calm_statement body) name min extent body
  | .realize name types bounds body =>
      (calm_realize name types bounds).bind fun _ => calm_statement body
  | .provide name values args => calm_updateNest (fun n => n.calm_provide name values args) _
  | .letIn name value body =>
      (calm_updateNest (fun n => n.calm_bind name value) _).bind fun _ => calm_statement body
  | .branch condition thenCase _ => calm_branch (calm_statement thenCase) condition thenCase _
  | .evaluate value => calm_evaluate value
  | .assert _ _ => .lift (by simp)
  | .store _ _ _ => .lift (by simp)
  | .allocate _ _ _ _ => .lift (by simp)
  | .free _ => .lift (by simp)

theorem calm_statements : ∀ ss : List Stmt, Calmly (statements ss)
  | [] => .pure _
  | s :: rest => (calm_statement s).bind fun _ => calm_statements rest

end

theorem calm_addBus (n : Netlist) : Calm (addBus n) := by
  refine (Component.calm_addOutput _ _ _).bind fun s => .bind (.foldlM (fun b p => ?_) _ _)
    fun _ => (Netlist.calm_addComponent _ _).bind fun _ => .pure _
  rcases p with ⟨name, width, direction⟩
  cases direction with
  | input => exact (Component.calm_addInput _ _ _).bind fun _ =>
      (Netlist.calm_addPort _ _ _ _).bind fun _ => .pure _
  | output => exact (Component.calm_addOutput _ _ _).bind fun _ =>
      (Netlist.calm_addPort _ _ _ _).bind fun _ => .pure _

/-- Nor does reading a kernel. -/
theorem calm_kernel (k : Kernel) : Calmly (kernel k) :=
  (Calmly.forM calm_addArgument _).bind fun _ => calm_statement k.body

end Construction

end StencilRtl
