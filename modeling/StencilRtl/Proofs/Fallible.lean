import Mathlib.Data.List.Forall2
import StencilRtl.Outcome

/-!
# Computations That Return

What is known of a computation that has returned a result.

A computation that fails says nothing about the design, so the lemmas here start
from a result and take it apart. Of a computation that keeps a state the state it
ends in is told together with the result.

## Main definitions

* `Returns`: A computation that keeps a state ends with a result.

## Theorems

* `exists_of_forall₂`, `map_eq_of_forall₂`: Two lists that belong together item by item.
* `Fallible.bind_ok`: Two computations one after the other.
* `Fallible.foldlM_ok`: A fold.
* `Fallible.mapM_ok`, `Fallible.mapM_eq_map`: A computation for each item of a list.
* `bind_ok`, `lift_bind_ok`, `get_bind_ok`: Two computations with a state that is lost when they
  fail.
* `returns_bind`, `returns_mapM`: Computations with a state one after the other.
-/

namespace StencilRtl

/-- Of two lists that belong together item by item, an item has a counterpart. -/
theorem exists_of_forall₂ {α β : Type} {R : α → β → Prop} {xs : List α} {ys : List β}
    (h : List.Forall₂ R xs ys) {x : α} (hx : x ∈ xs) : ∃ y ∈ ys, R x y := by
  induction h with
  | nil => exact absurd hx List.not_mem_nil
  | cons hhead _ ih =>
      rcases List.mem_cons.mp hx with rfl | hx
      · exact ⟨_, List.mem_cons_self .., hhead⟩
      · rcases ih hx with ⟨y, hy, hR⟩
        exact ⟨y, List.mem_cons_of_mem _ hy, hR⟩

/-- What is alike item by item is alike as a list. -/
theorem map_eq_of_forall₂ {α β γ : Type} {R : α → β → Prop} {f : α → γ} {g : β → γ} {xs : List α}
    {ys : List β} (h : List.Forall₂ R xs ys) (hR : ∀ x y, R x y → g y = f x) :
    ys.map g = xs.map f := by
  induction h with
  | nil => rfl
  | cons hhead _ ih => rw [List.map_cons, List.map_cons, ih, hR _ _ hhead]

namespace Fallible

/-- Two computations one after the other return if both return. -/
theorem bind_ok {α β : Type} {x : Fallible α} {f : α → Fallible β} {b : β} :
    x >>= f = .ok b ↔ ∃ a, x = .ok a ∧ f a = .ok b := by
  cases x with
  | error e =>
      refine ⟨fun h => ?_, fun h => ?_⟩
      · exact absurd h (by simp [bind, Except.bind])
      · rcases h with ⟨a, ha, _⟩
        exact absurd ha (by simp)
  | ok a =>
      refine ⟨fun h => ⟨a, rfl, h⟩, fun h => ?_⟩
      rcases h with ⟨a', ha, hf⟩
      rw [Except.ok.injEq] at ha
      rw [ha]
      exact hf

theorem exists_ok {α : Type} {x : Fallible α} (h : x.toBool = true) :
    ∃ a, x = .ok a := by
  cases x with
  | error e => exact absurd h (by simp [Except.toBool])
  | ok a => exact ⟨a, rfl⟩

/-- What is known of a part of the result shows that there is one. -/
theorem exists_of_map {α β : Type} {x : Fallible α} {f : α → β} {b : β} (h : x.map f = .ok b) :
    ∃ a, x = .ok a ∧ f a = b := by
  cases x with
  | error e => exact absurd h (by simp [Except.map])
  | ok a => exact ⟨a, rfl, Except.ok.inj h⟩

/-- What every step of a fold keeps is kept by the fold. -/
theorem foldlM_ok {α β : Type} {P : β → Prop} {f : β → α → Fallible β}
    (hf : ∀ b a b', P b → f b a = .ok b' → P b') {xs : List α} {b b' : β} (hb : P b)
    (h : xs.foldlM f b = .ok b') : P b' := by
  induction xs generalizing b with
  | nil => exact Except.ok.inj h ▸ hb
  | cons x rest ih =>
      rw [List.foldlM_cons, Fallible.bind_ok] at h
      rcases h with ⟨next, hnext, hrest⟩
      exact ih (hf b x next hb hnext) hrest

/-- A check of each item has been passed by all of them. -/
theorem forM_ok {α : Type} {f : α → Fallible Unit} {xs : List α} (h : xs.forM f = .ok ()) :
    ∀ x ∈ xs, f x = .ok () := by
  induction xs with
  | nil => exact List.forall_mem_nil _
  | cons x rest ih =>
      rcases bind_ok.mp h with ⟨_, hx, hrest⟩
      exact List.forall_mem_cons.mpr ⟨hx, ih hrest⟩

/-- A computation for each item returns one result an item. -/
theorem mapM_ok {α β : Type} {f : α → Fallible β} {xs : List α} {ys : List β}
    (h : xs.mapM f = .ok ys) : List.Forall₂ (fun x y => f x = .ok y) xs ys := by
  induction xs generalizing ys with
  | nil =>
      rw [List.mapM_nil] at h
      rw [← Except.ok.inj h]
      exact .nil
  | cons x rest ih =>
      rw [List.mapM_cons, bind_ok] at h
      rcases h with ⟨y, hy, h⟩
      rcases bind_ok.mp h with ⟨more, hmore, hcons⟩
      rw [← Except.ok.inj hcons]
      exact .cons hy (ih hmore)

/-- The result of each item is among the results. -/
theorem mem_of_mapM_ok {α β : Type} {f : α → Fallible β} {xs : List α} {ys : List β}
    (h : xs.mapM f = .ok ys) : ∀ x ∈ xs, ∃ y ∈ ys, f x = .ok y :=
  fun _ hx => exists_of_forall₂ (mapM_ok h) hx

/-- The results are given by a function if each of them is. -/
theorem mapM_eq_map {α β : Type} {f : α → Fallible β} {g : α → β} {xs : List α} {ys : List β}
    (hf : ∀ x ∈ xs, ∀ y, f x = .ok y → y = g x) (h : xs.mapM f = .ok ys) : ys = xs.map g := by
  have hall := mapM_ok h
  clear h
  induction hall with
  | nil => rfl
  | cons hhead _ ih =>
      rw [List.map_cons, hf _ (List.mem_cons_self ..) _ hhead,
        ih fun x hx => hf x (List.mem_cons_of_mem _ hx)]

/-- A computation that returns for each item returns for the list. -/
theorem mapM_returns {α β : Type} {f : α → Fallible β} {xs : List α}
    (h : ∀ x ∈ xs, ∃ y, f x = .ok y) : ∃ ys, xs.mapM f = .ok ys := by
  induction xs with
  | nil => exact ⟨[], rfl⟩
  | cons x rest ih =>
      rw [List.forall_mem_cons] at h
      rcases h.1 with ⟨y, hy⟩
      rcases ih h.2 with ⟨ys, hys⟩
      refine ⟨y :: ys, ?_⟩
      rw [List.mapM_cons, hy, hys]
      rfl

/-- If the results are given by a function, so are those of the list. -/
theorem mapM_of_ok {α β : Type} {f : α → Fallible β} {g : α → β} {xs : List α}
    (hf : ∀ x ∈ xs, f x = .ok (g x)) : xs.mapM f = .ok (xs.map g) := by
  induction xs with
  | nil => rfl
  | cons x rest ih =>
      rw [List.mapM_cons, hf x (List.mem_cons_self ..),
        ih fun y hy => hf y (List.mem_cons_of_mem _ hy)]
      rfl

end Fallible

section

variable {σ α β : Type} {s t : σ}

/-- Two computations that keep a state and lose it when they fail, one after the other. -/
theorem bind_ok {m : StateT σ Fallible α} {f : α → StateT σ Fallible β} {b : β} :
    (m >>= f) s = .ok (b, t) ↔ ∃ a r, m s = .ok (a, r) ∧ f a r = .ok (b, t) := by
  have hrun : (m >>= f) s = m s >>= fun r => f r.1 r.2 := rfl
  rw [hrun, Fallible.bind_ok]
  exact ⟨fun ⟨r, hr⟩ => ⟨r.1, r.2, hr⟩, fun ⟨a, d, h⟩ => ⟨(a, d), h⟩⟩

theorem pure_ok {a b : α} : (pure a : StateT σ Fallible α) s = .ok (b, t) ↔ b = a ∧ t = s := by
  have hrun : (pure a : StateT σ Fallible α) s = .ok (a, s) := rfl
  rw [hrun, Except.ok.injEq, Prod.mk.injEq]
  exact ⟨fun h => ⟨h.1.symm, h.2.symm⟩, fun h => ⟨h.1.symm, h.2.symm⟩⟩

theorem lift_ok {x : Fallible α} {a : α} :
    (liftM x : StateT σ Fallible α) s = .ok (a, t) ↔ x = .ok a ∧ t = s := by
  have hrun : (liftM x : StateT σ Fallible α) s = x >>= fun a => .ok (a, s) := rfl
  rw [hrun, Fallible.bind_ok]
  constructor
  · rintro ⟨b, hx, hb⟩
    rw [Except.ok.injEq, Prod.mk.injEq] at hb
    exact ⟨hb.1 ▸ hx, hb.2.symm⟩
  · rintro ⟨hx, rfl⟩
    exact ⟨a, hx, rfl⟩

/-- A computation without a state before one that has it. -/
theorem lift_bind_ok {x : Fallible α} {f : α → StateT σ Fallible β} {b : β} :
    (liftM x >>= f) s = .ok (b, t) ↔ ∃ a, x = .ok a ∧ f a s = .ok (b, t) := by
  rw [bind_ok]
  constructor
  · rintro ⟨a, r, hlift, hf⟩
    rcases lift_ok.mp hlift with ⟨hx, rfl⟩
    exact ⟨a, hx, hf⟩
  · rintro ⟨a, hx, hf⟩
    exact ⟨a, s, lift_ok.mpr ⟨hx, rfl⟩, hf⟩

/-- Reading the state cannot fail. -/
theorem get_bind_ok {f : σ → StateT σ Fallible β} {b : β} :
    (get >>= f) s = .ok (b, t) ↔ f s s = .ok (b, t) := Iff.rfl

/-- Neither can changing it. -/
theorem modify_bind_ok {g : σ → σ} {f : PUnit → StateT σ Fallible β} {b : β} :
    (modify g >>= f) s = .ok (b, t) ↔ f ⟨⟩ (g s) = .ok (b, t) := Iff.rfl

end

section

variable {σ α β : Type} {s t : σ}

/-- A computation that keeps a state ends with a result and a state. -/
def Returns (m : ExceptT Failure (StateM σ) α) (s : σ) (a : α) (t : σ) : Prop :=
  m.run.run s = (.ok a, t)

/-- A computation whose result is known ends in the state it ends in. -/
theorem returns_of_run {m : ExceptT Failure (StateM σ) α} {a : α}
    (h : (m.run.run s).1 = .ok a) : Returns m s a (m.run.run s).2 := Prod.ext h rfl

/-- Two computations one after the other, the second one only if the first one returns. -/
theorem run_bind {m : ExceptT Failure (StateM σ) α} {f : α → ExceptT Failure (StateM σ) β} :
    (m >>= f).run.run s
      = match m.run.run s with
        | (.ok a, r) => (f a).run.run r
        | (.error e, r) => (.error e, r) := by
  change (ExceptT.bind m f).run.run s = _
  simp only [ExceptT.bind, ExceptT.run, ExceptT.mk, StateT.run, bind, StateT.bind]
  cases m s with
  | mk result r => cases result <;> rfl

/-- A computation without a state leaves the state alone, whatever it comes to. -/
theorem run_lift {x : Fallible α} :
    (liftM x : ExceptT Failure (StateM σ) α).run.run s = (x, s) := rfl

theorem run_get : (get : ExceptT Failure (StateM σ) σ).run.run s = (.ok s, s) := rfl

theorem returns_bind {m : ExceptT Failure (StateM σ) α}
    {f : α → ExceptT Failure (StateM σ) β} {b : β} :
    Returns (m >>= f) s b t ↔ ∃ a r, Returns m s a r ∧ Returns (f a) r b t := by
  unfold Returns
  rw [run_bind]
  cases hm : m.run.run s with
  | mk result r =>
      cases result with
      | error e =>
          refine ⟨fun h => ?_, fun ⟨a, r', h, _⟩ => ?_⟩
          · exact absurd (congrArg Prod.fst h) (by simp)
          · exact absurd (congrArg Prod.fst h) (by simp)
      | ok a =>
          refine ⟨fun h => ⟨a, r, rfl, h⟩, fun ⟨a', r', h, h'⟩ => ?_⟩
          rw [Prod.mk.injEq, Except.ok.injEq] at h
          simp only [h.1, h.2]
          exact h'

theorem returns_pure {a b : α} :
    Returns (pure a : ExceptT Failure (StateM σ) α) s b t ↔ b = a ∧ t = s := by
  have hrun : (pure a : ExceptT Failure (StateM σ) α).run.run s = (.ok a, s) := rfl
  unfold Returns
  rw [hrun, Prod.mk.injEq, Except.ok.injEq]
  exact ⟨fun h => ⟨h.1.symm, h.2.symm⟩, fun h => ⟨h.1.symm, h.2.symm⟩⟩

theorem returns_lift {x : Fallible α} {a : α} :
    Returns (liftM x : ExceptT Failure (StateM σ) α) s a t ↔ x = .ok a ∧ t = s := by
  unfold Returns
  rw [run_lift, Prod.mk.injEq]
  exact ⟨fun h => ⟨h.1, h.2.symm⟩, fun h => ⟨h.1, h.2.symm⟩⟩

/-- A computation without a state before one that has it. -/
theorem returns_lift_bind {x : Fallible α} {f : α → ExceptT Failure (StateM σ) β} {b : β} :
    Returns (liftM x >>= f) s b t ↔ ∃ a, x = .ok a ∧ Returns (f a) s b t := by
  rw [returns_bind]
  refine ⟨?_, ?_⟩
  · rintro ⟨a, r, hreturns, hf⟩
    rcases returns_lift.mp hreturns with ⟨hx, rfl⟩
    exact ⟨a, hx, hf⟩
  · rintro ⟨a, hx, hf⟩
    exact ⟨a, s, returns_lift.mpr ⟨hx, rfl⟩, hf⟩

/-- A computation for each item of a list returns one result an item. -/
theorem returns_mapM {f : α → ExceptT Failure (StateM σ) β} {xs : List α} {ys : List β}
    (h : Returns (xs.mapM f) s ys t) :
    List.Forall₂ (fun x y => ∃ r r', Returns (f x) r y r') xs ys := by
  induction xs generalizing s t ys with
  | nil =>
      rw [List.mapM_nil] at h
      rw [(returns_pure.mp h).1]
      exact .nil
  | cons x rest ih =>
      rw [List.mapM_cons] at h
      rcases returns_bind.mp h with ⟨y, r, hy, h⟩
      rcases returns_bind.mp h with ⟨more, r', hmore, h⟩
      rw [(returns_pure.mp h).1]
      exact .cons ⟨s, r, hy⟩ (ih hmore)

/-- Reading the state cannot fail. -/
theorem returns_get_bind {f : σ → ExceptT Failure (StateM σ) β} {b : β} :
    Returns (get >>= f) s b t ↔ Returns (f s) s b t := by
  unfold Returns
  rw [run_bind, run_get]

theorem returns_modify {f : σ → σ} {u : PUnit} :
    Returns (modify f : ExceptT Failure (StateM σ) PUnit) s u t ↔ t = f s := by
  have hrun : (modify f : ExceptT Failure (StateM σ) PUnit).run.run s = (.ok .unit, f s) := rfl
  unfold Returns
  rw [hrun, Prod.mk.injEq, Except.ok.injEq]
  exact ⟨fun h => h.2.symm, fun h => ⟨rfl, h.symm⟩⟩

end

end StencilRtl
