import StencilRtl.Hardware.Library
import StencilRtl.Proofs.Fallible

/-!
# Modules That Were Defined

What is in the workshop after a computation that defines modules.

A name that is asked for may have been defined before. Then it stays what it is, and
whatever is said of its module has to be known from then. So the lemmas here speak of
parameters nothing has been defined for yet: asking for them succeeds only if the name is
free, and defining them adds the module that was built.

## Main definitions

* `Library.module?`: The module a name stands for.
* `Library.Lacks`: Nothing has been defined for some parameters.
* `Making.Yields`: What is known of the result of a computation.

## Theorems

* `Library.find?_none_of_needs`: A name asked for with new parameters is free.
* `Making.run_needs`, `Making.run_define`: What asking and defining come to.
* `Making.returns_needs`, `Making.returns_define`: Asking for a definition and adding one.
* `Making.returns_of_lacks`, `Making.module_of_define`: How a maker begins and ends.
-/

namespace StencilRtl

namespace Library

/-- The module a name stands for. -/
def module? (l : Library) (name : String) : Option Rtl.Module := (l.find? name).map (·.content)

/-- The same, if the name stands for one. -/
def moduleD (l : Library) (name : String) : Rtl.Module := (l.module? name).getD default

/-- Nothing has been defined for some parameters. -/
def Lacks (l : Library) (parameters : Parameters) : Prop :=
  ∀ d ∈ l.definitions, d.parameters ≠ parameters

/-- The library with one more definition. -/
def add (l : Library) (d : Definition) : Library := ⟨l.definitions ++ [d]⟩

variable {l : Library} {name : String} {parameters : Parameters}

theorem module?_eq_moduleD (h : (l.module? name).isSome = true) :
    l.module? name = some (l.moduleD name) := by
  rcases Option.isSome_iff_exists.mp h with ⟨m, hm⟩
  rw [moduleD, hm, Option.getD_some]

/-- A name that is not needed stands for its parameters. -/
theorem found_of_needs (h : l.needs name parameters = .ok false) :
    ∃ d, l.find? name = some d ∧ d.parameters = parameters := by
  rw [needs] at h
  split at h
  · exact absurd (Except.ok.inj h) (by simp)
  · next d hsome =>
    split at h
    · next hparams => exact ⟨d, hsome, hparams⟩
    · exact absurd h (by simp [malformed])

/-- A name that is needed is free. -/
theorem free_of_needs (h : l.needs name parameters = .ok true) : l.find? name = none := by
  rw [needs] at h
  split at h
  · assumption
  · split at h
    · exact absurd (Except.ok.inj h) (by simp)
    · exact absurd h (by simp [malformed])

/-- A name asked for with new parameters is free. -/
theorem find?_none_of_needs (hlacks : l.Lacks parameters) {b : Bool}
    (h : l.needs name parameters = .ok b) : b = true ∧ l.find? name = none := by
  cases b with
  | false =>
      rcases found_of_needs h with ⟨d, hsome, hparams⟩
      exact absurd hparams (hlacks d (List.mem_of_find?_eq_some hsome))
  | true => exact ⟨rfl, free_of_needs h⟩

theorem find?_add_self {d : Definition} (h : l.find? d.name = none) :
    (l.add d).find? d.name = some d := by
  rw [find?] at h
  rw [add, find?, List.find?_append, h, Option.none_or, List.find?_cons_of_pos (by simp)]

theorem find?_add_of_ne {d : Definition} (h : d.name ≠ name) :
    (l.add d).find? name = l.find? name := by
  rw [add, find?, find?, List.find?_append, List.find?_cons_of_neg (by simpa using h),
    List.find?_nil, Option.or_none]

end Library

namespace Making

variable {w w' : Workshop} {name : String} {parameters : Parameters}

theorem run_needs : (needs name parameters).run.run w = (w.library.needs name parameters, w) := by
  unfold needs
  rw [run_bind]
  rfl

/-- A definition asks first. -/
theorem run_define {header : List String} {ports : List Rtl.Port} {body : List Rtl.Item} :
    (define name parameters header ports body).run.run w
      = match w.library.needs name parameters with
        | .ok true => (.ok (), { w with
            library := w.library.add ⟨name, parameters, header, ⟨name, ports, body⟩⟩ })
        | .ok false => (.ok (), w)
        | .error e => (.error e, w) := by
  unfold define
  rw [run_bind]
  simp only [run_get]
  rw [run_bind]
  simp only [run_lift, Library.define]
  rcases w.library.needs name parameters with e | (_ | _) <;> rfl

/-- Defining a module asks for it, and does nothing if it is there. -/
theorem define_bind_eq {α : Type} {header : List String} {ports : List Rtl.Port}
    {body : List Rtl.Item} {m : Making α} :
    (define name parameters header ports body >>= fun _ => m) = (do
      if ← needs name parameters then
        define name parameters header ports body
        m
      else m) := by
  refine ExceptT.ext (StateT.ext fun w => ?_)
  rw [run_bind, run_bind, run_needs, run_define]
  rcases hneeds : w.library.needs name parameters with e | (_ | _)
  · rfl
  · rfl
  · simp only [if_true, run_bind, run_define, hneeds]

theorem returns_needs {b : Bool} : Returns (needs name parameters) w b w' ↔
    w.library.needs name parameters = .ok b ∧ w' = w := by
  unfold Returns
  rw [run_needs, Prod.mk.injEq]
  exact ⟨fun h => ⟨h.1, h.2.symm⟩, fun h => ⟨h.1, h.2.symm⟩⟩

theorem returns_numberOf {n : Nat} : Returns (numberOf parameters) w n w' ↔
    n = w.library.numberOf parameters ∧ w' = w := by
  unfold numberOf
  exact returns_get_bind.trans returns_pure

/-- A definition that returns has found the module there or has added it. -/
theorem returns_define_iff {header : List String} {ports : List Rtl.Port} {body : List Rtl.Item}
    {u : Unit} : Returns (define name parameters header ports body) w u w' ↔
      w.library.needs name parameters = .ok false ∧ w' = w ∨
        w.library.needs name parameters = .ok true ∧ w' = { w with
          library := w.library.add ⟨name, parameters, header, ⟨name, ports, body⟩⟩ } := by
  rw [Returns, run_define]
  rcases w.library.needs name parameters with e | (_ | _)
  · rw [Prod.mk.injEq]
    simp
  · rw [Prod.mk.injEq]
    simp [eq_comm]
  · rw [Prod.mk.injEq]
    simp [eq_comm]

/-- With new parameters a module can only be defined under a free name. -/
theorem free_of_define {header : List String} {ports : List Rtl.Port} {body : List Rtl.Item}
    {u : Unit} (hlacks : w.library.Lacks parameters)
    (h : Returns (define name parameters header ports body) w u w') :
    w.library.find? name = none := by
  rcases returns_define_iff.mp h with ⟨hneeds, _⟩ | ⟨hneeds, _⟩
  · exact (Library.find?_none_of_needs hlacks hneeds).2
  · exact (Library.find?_none_of_needs hlacks hneeds).2

/-- A free name stands for the module that is defined under it. -/
theorem returns_define {header : List String} {ports : List Rtl.Port} {body : List Rtl.Item}
    {u : Unit} (hfree : w.library.find? name = none)
    (h : Returns (define name parameters header ports body) w u w') :
    w'.library = w.library.add ⟨name, parameters, header, ⟨name, ports, body⟩⟩ := by
  rcases returns_define_iff.mp h with ⟨hneeds, _⟩ | ⟨_, rfl⟩
  · rcases Library.found_of_needs hneeds with ⟨d, hsome, _⟩
    exact absurd (hfree.symm.trans hsome) (by simp)
  · rfl

/-- What asks for new parameters and returns has found a free name, and goes on to make it. -/
theorem returns_of_lacks {α : Type} {m m' : Making α} {a : α} (hlacks : w.library.Lacks parameters)
    (h : Returns (do if ← needs name parameters then m else m') w a w') :
    w.library.find? name = none ∧ Returns m w a w' := by
  rcases returns_bind.mp h with ⟨b, r, hasked, hmade⟩
  rcases returns_needs.mp hasked with ⟨hneeds, rfl⟩
  rcases Library.find?_none_of_needs hlacks hneeds with ⟨rfl, hfree⟩
  rw [if_pos rfl] at hmade
  exact ⟨hfree, hmade⟩

/-- What ends with a definition under a free name leaves the module behind. -/
theorem module_of_define {header : List String} {ports : List Rtl.Port} {body : List Rtl.Item}
    {result : String} (hfree : w.library.find? name = none)
    (h : Returns (do define name parameters header ports body; return name) w result w') :
    result = name ∧ w'.library.module? name = some ⟨name, ports, body⟩ := by
  rcases returns_bind.mp h with ⟨u, r, hdefine, hname⟩
  rcases returns_pure.mp hname with ⟨rfl, rfl⟩
  rw [returns_define hfree hdefine, Library.module?, Library.find?_add_self hfree]
  exact ⟨rfl, rfl⟩

/-- What is known of the result of a computation, if there is one. -/
def Yields {α : Type} (m : Making α) (P : α → Prop) : Prop := ∀ w a w', Returns m w a w' → P a

namespace Yields

variable {α β : Type} {P : β → Prop}

theorem pure {b : β} (h : P b) : Yields (Pure.pure b) P := by
  intro w a w' hreturns
  rw [(returns_pure.mp hreturns).1]
  exact h

theorem bind {m : Making α} {f : α → Making β} (h : ∀ a, Yields (f a) P) :
    Yields (m >>= f) P := by
  intro w b w' hreturns
  rcases returns_bind.mp hreturns with ⟨a, v, _, hb⟩
  exact h a v b w' hb

theorem lift_bind {x : Fallible α} {f : α → Making β} (h : ∀ a, x = .ok a → Yields (f a) P) :
    Yields (liftM x >>= f) P := by
  intro w b w' hreturns
  rcases returns_lift_bind.mp hreturns with ⟨a, ha, hb⟩
  exact h a ha w b w' hb

end Yields

end Making

end StencilRtl
