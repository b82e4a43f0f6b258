import StencilRtl.Proofs.Fallible

/-!
# Answers

Computations that end with an answer, whatever the answer is.

A computation that returns answers, and so does one that is refused with an error. Only one
that gives way does not. A postcondition is told together with that: `Answers` says of a
computation that it does not give way and that its result, if there is one, is as wanted. It
goes through a computation from front to back, so what is known of one result is there when
the next one is asked for, and errors end the matter.

Of a computation that keeps a state the state is told before and behind it. Some lose their
state when they fail and some do not, but behind a failure nobody looks at it.

## Main definitions

* `Fallible.Answers`: A computation that answers, with what its result is like.
* `Answering`: The same of a computation that loses its state when it fails.
* `Replying`: The same of a computation whose state survives.

## Theorems

* `Fallible.Answers.bind`, `Answering.bind`, `Replying.bind`: One after the other.
* `Fallible.Answers.mapM` and the like: A computation for each item of a list.
* `Fallible.Answers.ne_fault`: What answers does not give way.
-/

namespace StencilRtl

namespace Fallible

variable {α β : Type}

/-- A computation that does not give way, and whose result, if there is one, is as said. -/
def Answers (x : Fallible α) (P : α → Prop) : Prop :=
  match x with
  | .ok a => P a
  | .error (.error _) => True
  | .error (.fault _) => False

@[simp]
theorem answers_ok {a : α} {P : α → Prop} : Answers (.ok a) P ↔ P a := Iff.rfl

@[simp]
theorem answers_pure {a : α} {P : α → Prop} : Answers (pure a : Fallible α) P ↔ P a := Iff.rfl

@[simp]
theorem answers_unsupported (cause : Unsupported) {P : α → Prop} :
    Answers (unsupported cause) P := trivial

@[simp]
theorem answers_malformed (cause : Malformed) {P : α → Prop} : Answers (malformed cause) P :=
  trivial

@[simp]
theorem answers_undefinedName (name role : String) {P : α → Prop} :
    Answers (undefinedName name role) P := trivial

namespace Answers

variable {x : Fallible α} {P Q : α → Prop} {R : β → Prop}

theorem ne_fault (h : Answers x P) (fault : Fault) : x ≠ .error (.fault fault) := by
  rintro rfl
  exact h

theorem of_ok {a : α} (hx : x = .ok a) (ha : P a) : Answers x P := by
  rw [hx]
  exact ha

/-- What returns answers. -/
theorem of_exists (h : ∃ a, x = .ok a) : Answers x fun _ => True :=
  h.elim fun _ hx => of_ok hx trivial

/-- What is known of the result. -/
theorem of_eq (h : Answers x P) {a : α} (hx : x = .ok a) : P a := by
  rw [hx] at h
  exact h

/-- Of the result may be used that it is the result. -/
theorem mono_ok (h : Answers x P) (hQ : ∀ a, x = .ok a → P a → Q a) : Answers x Q := by
  cases x with
  | ok a => exact hQ a rfl h
  | error failure =>
      cases failure with
      | error _ => trivial
      | fault _ => exact h.elim

theorem mono (h : Answers x P) (hQ : ∀ a, P a → Q a) : Answers x Q := h.mono_ok fun a _ => hQ a

theorem bind {f : α → Fallible β} (hx : Answers x P) (hf : ∀ a, P a → Answers (f a) R) :
    Answers (x >>= f) R := by
  cases x with
  | ok a => exact hf a hx
  | error failure =>
      cases failure with
      | error _ => trivial
      | fault _ => exact hx.elim

/-- Two computations one after the other, of which the second one may rely on the first one. -/
theorem bind_ok {f : α → Fallible β} (hx : Answers x P)
    (hf : ∀ a, x = .ok a → P a → Answers (f a) R) : Answers (x >>= f) R :=
  (hx.mono_ok (Q := fun a => x = .ok a ∧ P a) fun _ hok ha => ⟨hok, ha⟩).bind fun a ha =>
    hf a ha.1 ha.2

/-- What an earlier computation came to is known. -/
theorem bind_of_ok {a : α} {f : α → Fallible β} (hx : x = .ok a) (hf : Answers (f a) R) :
    Answers (x >>= f) R := by
  rw [hx]
  exact hf

theorem mapM {f : α → Fallible β} {xs : List α} (hf : ∀ a ∈ xs, Answers (f a) R) :
    Answers (xs.mapM f) fun ys => ∀ y ∈ ys, R y := by
  induction xs with
  | nil => exact List.forall_mem_nil _
  | cons x rest ih =>
      rw [List.forall_mem_cons] at hf
      rw [List.mapM_cons]
      exact hf.1.bind fun y hy => (ih hf.2).bind fun ys hys => List.forall_mem_cons.mpr ⟨hy, hys⟩

/-- What several items come to, put together. -/
theorem mapM_flatten {f : α → Fallible (List β)} {xs : List α}
    (hf : ∀ a ∈ xs, Answers (f a) fun ys => ∀ y ∈ ys, R y) :
    Answers (xs.mapM f) fun yss => ∀ y ∈ yss.flatten, R y :=
  (mapM hf).mono fun _ hall _ hy =>
    have ⟨ys, hys, hmem⟩ := List.mem_flatten.mp hy
    hall ys hys _ hmem

theorem forM {f : α → Fallible Unit} {xs : List α}
    (hf : ∀ a ∈ xs, Answers (f a) fun _ => True) : Answers (xs.forM f) fun _ => True := by
  induction xs with
  | nil => trivial
  | cons x rest ih =>
      rw [List.forall_mem_cons] at hf
      exact hf.1.bind fun _ _ => ih hf.2

/-- A fold answers if its steps keep something that is enough for the next one. -/
theorem foldlM {f : β → α → Fallible β} {xs : List α} (hf : ∀ a ∈ xs, ∀ b, R b → Answers (f b a) R)
    {b : β} (hb : R b) : Answers (xs.foldlM f b) R := by
  induction xs generalizing b with
  | nil => exact hb
  | cons x rest ih =>
      rw [List.forall_mem_cons] at hf
      rw [List.foldlM_cons]
      exact (hf.1 b hb).bind fun _ hnext => ih hf.2 hnext

end Answers

end Fallible

open Fallible

/-- If `P` holds of the state, the computation answers, and `Q` holds of the result and the
    state behind it. -/
def Answering {σ α : Type} (P : σ → Prop) (m : StateT σ Fallible α) (Q : α → σ → Prop) : Prop :=
  ∀ s, P s → Answers (m s) fun r => Q r.1 r.2

namespace Answering

variable {σ α β : Type} {P : σ → Prop} {Q : α → σ → Prop} {R : β → σ → Prop}

theorem pure {a : α} (h : ∀ s, P s → Q a s) : Answering P (Pure.pure a : StateT σ Fallible α) Q := h

theorem bind {m : StateT σ Fallible α} {f : α → StateT σ Fallible β} (hm : Answering P m Q)
    (hf : ∀ a, Answering (Q a) (f a) R) : Answering P (m >>= f) R :=
  fun s hs => (hm s hs).bind fun r hr => hf r.1 r.2 hr

/-- What is known of the first result and has nothing to do with the state is known for good. -/
theorem bind_and {m : StateT σ Fallible α} {f : α → StateT σ Fallible β} {A : α → Prop}
    {S : σ → Prop} (hm : Answering P m fun a s => A a ∧ S s)
    (hf : ∀ a, A a → Answering S (f a) R) : Answering P (m >>= f) R :=
  hm.bind fun a s hs => hf a hs.1 s hs.2

/-- A computation that keeps no state. -/
theorem lift {x : Fallible α} {A : α → Prop} (hx : Answers x A) :
    Answering P (liftM x : StateT σ Fallible α) fun a s => A a ∧ P s :=
  fun _ hs => hx.bind fun _ ha => ⟨ha, hs⟩

/-- What comes behind it may rely on it. -/
theorem lift_bind {x : Fallible α} {A : α → Prop} {f : α → StateT σ Fallible β} (hx : Answers x A)
    (hf : ∀ a, x = .ok a → A a → Answering P (f a) R) : Answering P (liftM x >>= f) R :=
  bind_and (lift (hx.mono_ok (Q := fun a => x = .ok a ∧ A a) fun _ hok ha => ⟨hok, ha⟩))
    fun a ha => hf a ha.1 ha.2

theorem get_bind {f : σ → StateT σ Fallible β}
    (hf : ∀ s, P s → Answering (fun t => t = s) (f s) R) :
    Answering P (get >>= f) R := fun s hs => hf s hs s rfl

/-- Looking at the state does not change it. -/
theorem look {f : σ → StateT σ Fallible β} (hf : ∀ s, P s → Answering P (f s) R) :
    Answering P (get >>= f) R := fun s hs => hf s hs s hs

theorem change {f : σ → σ} {S : PUnit → σ → Prop} (h : ∀ s, P s → S .unit (f s)) :
    Answering P (modify f : StateT σ Fallible PUnit) S := h

theorem weaken {P' : σ → Prop} {Q' : α → σ → Prop} {m : StateT σ Fallible α} (h : Answering P m Q)
    (hP : ∀ s, P' s → P s) (hQ : ∀ a s, Q a s → Q' a s) : Answering P' m Q' :=
  fun s hs => (h s (hP s hs)).mono fun r hr => hQ r.1 r.2 hr

/-- What follows from what holds before a computation need not be told again. -/
theorem assume {m : StateT σ Fallible α} {p : Prop} (hp : ∀ s, P s → p) (h : p → Answering P m Q) :
    Answering P m Q := fun s hs => h (hp s hs) s hs

theorem forM {f : α → StateT σ Fallible Unit} {xs : List α}
    (hf : ∀ a ∈ xs, Answering P (f a) fun _ => P) : Answering P (xs.forM f) fun _ => P := by
  induction xs with
  | nil => exact fun _ hs => hs
  | cons x rest ih =>
      rw [List.forall_mem_cons] at hf
      exact hf.1.bind fun _ => ih hf.2

/-- A fold answers if its steps keep something that is enough for the next one. -/
theorem foldlM {f : β → α → StateT σ Fallible β} {xs : List α} {B : β → Prop}
    (hf : ∀ a ∈ xs, ∀ b, B b → Answering P (f b a) fun b s => B b ∧ P s) {b : β} (hb : B b) :
    Answering P (xs.foldlM f b) fun b s => B b ∧ P s := by
  induction xs generalizing b with
  | nil => exact pure fun _ hs => ⟨hb, hs⟩
  | cons x rest ih =>
      rw [List.forall_mem_cons] at hf
      rw [List.foldlM_cons]
      exact (hf.1 b hb).bind_and fun _ hnext => ih hf.2 hnext

end Answering

/-- If `P` holds of the state, the computation answers, and `Q` holds of the result and the
    state behind it. Behind a failure there is nothing to say. -/
def Replying {σ α : Type} (P : σ → Prop) (m : ExceptT Failure (StateM σ) α)
    (Q : α → σ → Prop) : Prop :=
  ∀ s, P s → Answers (m.run.run s).1 fun a => Q a (m.run.run s).2

namespace Replying

variable {σ α β : Type} {P : σ → Prop} {Q : α → σ → Prop} {R : β → σ → Prop}

theorem pure {a : α} (h : ∀ s, P s → Q a s) :
    Replying P (Pure.pure a : ExceptT Failure (StateM σ) α) Q := h

theorem bind {m : ExceptT Failure (StateM σ) α} {f : α → ExceptT Failure (StateM σ) β}
    (hm : Replying P m Q) (hf : ∀ a, Replying (Q a) (f a) R) : Replying P (m >>= f) R := by
  intro s hs
  have hfirst := hm s hs
  rw [run_bind]
  cases hrun : m.run.run s with
  | mk result t =>
      rw [hrun] at hfirst
      cases result with
      | ok a => exact hf a t hfirst
      | error failure =>
          cases failure with
          | error _ => trivial
          | fault _ => exact hfirst.elim

/-- What is known of the first result and has nothing to do with the state is known for good. -/
theorem bind_and {m : ExceptT Failure (StateM σ) α} {f : α → ExceptT Failure (StateM σ) β}
    {A : α → Prop} {S : σ → Prop} (hm : Replying P m fun a s => A a ∧ S s)
    (hf : ∀ a, A a → Replying S (f a) R) : Replying P (m >>= f) R :=
  hm.bind fun a s hs => hf a hs.1 s hs.2

/-- A computation without a state. -/
theorem lift {x : Fallible α} {A : α → Prop} (hx : Answers x A) :
    Replying P (liftM x : ExceptT Failure (StateM σ) α) fun a s => A a ∧ P s :=
  fun _ hs => hx.mono fun _ ha => ⟨ha, hs⟩

/-- What comes behind it may rely on it. -/
theorem lift_bind {x : Fallible α} {A : α → Prop} {f : α → ExceptT Failure (StateM σ) β}
    (hx : Answers x A) (hf : ∀ a, x = .ok a → A a → Replying P (f a) R) :
    Replying P (liftM x >>= f) R :=
  bind_and (lift (hx.mono_ok (Q := fun a => x = .ok a ∧ A a) fun _ hok ha => ⟨hok, ha⟩))
    fun a ha => hf a ha.1 ha.2

theorem get_bind {f : σ → ExceptT Failure (StateM σ) β}
    (hf : ∀ s, P s → Replying (fun t => t = s) (f s) R) : Replying P (get >>= f) R :=
  bind (Q := fun s t => t = s ∧ P s) (fun _ hs => ⟨rfl, hs⟩) fun s t ht => hf s ht.2 t ht.1

theorem change {f : σ → σ} {S : PUnit → σ → Prop} (h : ∀ s, P s → S .unit (f s)) :
    Replying P (modify f : ExceptT Failure (StateM σ) PUnit) S := h

theorem weaken {P' : σ → Prop} {Q' : α → σ → Prop} {m : ExceptT Failure (StateM σ) α}
    (h : Replying P m Q) (hP : ∀ s, P' s → P s) (hQ : ∀ a s, Q a s → Q' a s) :
    Replying P' m Q' :=
  fun s hs => (h s (hP s hs)).mono fun a ha => hQ a _ ha

theorem mapM {f : α → ExceptT Failure (StateM σ) β} {xs : List α} {A : β → Prop}
    (hf : ∀ a ∈ xs, Replying P (f a) fun b s => A b ∧ P s) :
    Replying P (xs.mapM f) fun ys s => (∀ y ∈ ys, A y) ∧ P s := by
  induction xs with
  | nil =>
      rw [List.mapM_nil]
      exact pure fun _ hs => ⟨List.forall_mem_nil _, hs⟩
  | cons x rest ih =>
      rw [List.forall_mem_cons] at hf
      rw [List.mapM_cons]
      exact hf.1.bind_and fun y hy => (ih hf.2).bind_and fun ys hys =>
        pure fun _ hs => ⟨List.forall_mem_cons.mpr ⟨hy, hys⟩, hs⟩

/-- A fold answers if its steps keep what is told of the state. -/
theorem foldlM {f : β → α → ExceptT Failure (StateM σ) β} {xs : List α}
    (hf : ∀ a ∈ xs, ∀ b, Replying P (f b a) fun _ => P) (b : β) :
    Replying P (xs.foldlM f b) fun _ => P := by
  induction xs generalizing b with
  | nil => exact pure fun _ hs => hs
  | cons x rest ih =>
      rw [List.forall_mem_cons] at hf
      rw [List.foldlM_cons]
      exact (hf.1 b).bind fun next => ih hf.2 next

end Replying

end StencilRtl
