import StencilRtl.Proofs.Rtl.Streams

/-!
# Runs Given by a Table

Runs that are written down signal by signal.

What an item demands of two states can be decided, so whether some states are a run is a
matter of computation if there are only finitely many of them. A `Trace` gives the value
of each signal cycle by cycle and stays in its last state forever. It is a run just if
every step of it is one, the step from the last state to itself included.

## Main definitions

* `Trace`, `Trace.state`: A table of values and the states it gives.
* `Module.typing`: The sizes a module declares.
* `Module.Follows`: Every step of a trace is one a module may take.

## Theorems

* `Module.Follows.runs`: A trace of a module without instances is a run.
* `Module.Follows.runs_instance`: So is one of a module with an instance that has one.
* `Trace.fromReset`: It may start with a reset.
-/

namespace StencilRtl

namespace Rtl

variable {Γ : Typing}

/-- The items a state is demanded to respect can be checked. -/
def Item.decideHolds (Γ : Typing) (s t : State) : (i : Item) → Decidable (i.Holds Γ s t)
  | .wire _ _ => .isTrue trivial
  | .reg _ _ => .isTrue trivial
  | .memory _ _ _ => .isTrue trivial
  | .assign target value =>
      inferInstanceAs
        (Decidable (∀ name ∈ target.target?, State.Same Γ s (s.put Γ s target value) name))
  | .process .combinational body =>
      inferInstanceAs (Decidable (∀ name ∈ Stmt.targetsOfAll body,
        State.Same Γ s (Stmt.executeAll Γ ⟨s, s⟩ body).now name))
  | .process .clocked body =>
      inferInstanceAs (Decidable (∀ name ∈ Stmt.targetsOfAll body,
        State.Same Γ t (Stmt.executeAll Γ ⟨s, s⟩ body).after name))
  | .submodule _ _ _ => .isTrue trivial

instance (s t : State) (i : Item) : Decidable (i.Holds Γ s t) := i.decideHolds Γ s t

instance (m : Module) (s : State) : Decidable (m.Typed Γ s) :=
  decidable_of_iff
    ((∀ d ∈ m.signals, Γ.width d.1 = d.2 ∧ s.value d.1 < 2 ^ d.2) ∧
      ∀ d ∈ m.memories, Γ.cellWidth d.1 = d.2.1 ∧ Γ.depth d.1 = d.2.2 ∧
        ∀ i < d.2.2, s.cell d.1 i < 2 ^ d.2.1)
    ⟨fun h => ⟨h.1, h.2⟩, fun h => ⟨h.signal, h.memory⟩⟩

instance (p : Port) (outer inner : State) (e : Expr) : Decidable (p.Joined Γ outer inner e) := by
  unfold Port.Joined
  cases p.direction with
  | input => exact inferInstanceAs (Decidable (_ = _))
  | output =>
      cases e with
      | ref name =>
          exact decidable_of_iff (outer.value name = inner.value p.name % 2 ^ Γ.width name)
            ⟨fun h _ hname => Expr.ref.inj hname ▸ h, fun h => h name rfl⟩
      | _ => exact .isTrue fun _ h => absurd h (by simp)

/-- The values of signals and memories in some cycles, the last of which stays. -/
structure Trace where
  last : Nat
  signals : List (String × List Nat)
  cells : List (String × List (List Nat))

/-- The state of a trace in a cycle. -/
def Trace.state (r : Trace) (t : Nat) : State where
  value name := ((r.signals.lookup name).getD []).getD (min t r.last) 0
  cell memory i := (((r.cells.lookup memory).getD []).getD (min t r.last) []).getD i 0
  unknown := 0

/-- The sizes a module declares. -/
def Module.typing (m : Module) : Typing where
  width name := (m.signals.lookup name).getD 0
  cellWidth memory := ((m.memories.lookup memory).map Prod.fst).getD 0
  depth memory := ((m.memories.lookup memory).map Prod.snd).getD 0

/-- Every step of a trace is one a module may take. -/
def Module.Follows (m : Module) (r : Trace) : Prop :=
  ∀ t ∈ List.range (r.last + 1), m.Typed m.typing (r.state t) ∧
    ∀ i ∈ m.body, i.Holds m.typing (r.state t) (r.state (t + 1))

instance (m : Module) (r : Trace) : Decidable (m.Follows r) :=
  inferInstanceAs (Decidable (∀ _ ∈ _, _ ∧ _))

/-- The instances in a module. -/
def Module.instances (m : Module) : List (String × String × List (String × Expr)) :=
  m.body.filterMap fun
    | .submodule name instanceName connections => some (name, instanceName, connections)
    | _ => none

/-- A trace does not move on after its last state. -/
theorem Trace.state_min (r : Trace) (t : Nat) : r.state (min t r.last) = r.state t := by
  rw [state, state, Nat.min_assoc, Nat.min_self]

theorem Trace.state_min_succ (r : Trace) (t : Nat) :
    r.state (min t r.last + 1) = r.state (t + 1) := by
  rw [← r.state_min (min t r.last + 1), ← r.state_min (t + 1)]
  exact congrArg r.state (by omega)

namespace Module

variable {m : Module} {r : Trace} {library : String → Option Module}

theorem mem_instances {name instanceName : String} {connections : List (String × Expr)} :
    .submodule name instanceName connections ∈ m.body ↔
      (name, instanceName, connections) ∈ m.instances := by
  rw [instances, List.mem_filterMap]
  refine ⟨fun h => ⟨_, h, rfl⟩, ?_⟩
  rintro ⟨item, hitem, hsome⟩
  cases item with
  | submodule _ _ _ =>
      rcases Option.some.inj hsome with ⟨⟩
      exact hitem
  | _ => exact absurd hsome (by simp)

namespace Follows

theorem typed (h : m.Follows r) (t : Nat) : m.Typed m.typing (r.state t) := by
  rw [← r.state_min t]
  exact (h _ (List.mem_range.mpr (by omega))).1

theorem holds (h : m.Follows r) (t : Nat) :
    ∀ i ∈ m.body, i.Holds m.typing (r.state t) (r.state (t + 1)) := by
  rw [← r.state_min t, ← r.state_min_succ t]
  exact (h _ (List.mem_range.mpr (by omega))).2

/-- A trace of a module all instances of which are made of one module is a run if that
    module has one. -/
theorem runs_instance (h : m.Follows r) {name : String} {inner : Module} {r' : Trace}
    (hdefined : library name = some inner) (hruns : inner.Runs library inner.typing r'.state)
    (hlast : r'.last = r.last) (hname : ∀ i ∈ m.instances, i.1 = name)
    (hjoined : ∀ i ∈ m.instances, ∀ t ∈ List.range (r.last + 1), ∀ p ∈ inner.ports,
      ∀ c ∈ i.2.2, c.1 = p.name → p.Joined m.typing (r.state t) (r'.state t) c.2) :
    m.Runs library m.typing r.state := by
  refine .intro (fun _ => inner) (fun _ => inner.typing) (fun _ => r'.state) h.typed h.holds
    ?_ ?_ ?_
  · exact fun _ _ _ hitem => (congrArg library (hname _ (mem_instances.mp hitem))).trans hdefined
  · exact fun _ _ _ _ => hruns
  · intro _ _ _ hitem t p hp e he
    rw [← r.state_min t, ← r'.state_min t, hlast]
    exact hjoined _ (mem_instances.mp hitem) _ (List.mem_range.mpr (by omega)) p hp _ he rfl

/-- A trace of a module without instances is a run. -/
theorem runs (h : m.Follows r) (hnone : m.instances.isEmpty = true) :
    m.Runs library m.typing r.state := by
  have habsurd : ∀ name instanceName connections,
      .submodule name instanceName connections ∉ m.body := by
    intro name instanceName connections hitem
    rw [mem_instances, List.isEmpty_iff.mp hnone] at hitem
    exact absurd hitem List.not_mem_nil
  refine .intro (fun _ => m) (fun _ => m.typing) (fun _ => r.state) h.typed h.holds ?_ ?_ ?_
  · exact fun _ _ _ hitem => absurd hitem (habsurd _ _ _)
  · exact fun _ _ _ hitem => absurd hitem (habsurd _ _ _)
  · exact fun _ _ _ hitem => absurd hitem (habsurd _ _ _)

end Follows

end Module

/-- A trace that starts with a reset. -/
theorem Trace.fromReset {r : Trace} (hfirst : (r.state 0).value reset = 1)
    (hlater : ∀ t ∈ List.range (r.last + 1), (r.state (t + 1)).value reset = 0) :
    FromReset r.state := by
  refine ⟨hfirst, fun t => ?_⟩
  rw [← r.state_min_succ t]
  exact hlater _ (List.mem_range.mpr (by omega))

end Rtl

end StencilRtl
