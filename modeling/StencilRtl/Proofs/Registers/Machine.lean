import Mathlib.Data.Int.ModEq
import Mathlib.Data.Nat.Count
import StencilRtl.Hardware.SlaveInterface
import StencilRtl.Proofs.Rtl.Cases
import StencilRtl.Proofs.Rtl.Counters

/-!
# Machines That Go Round

In which order a state machine leaves its states.

A machine moves whenever the condition of its state holds, and it never skips a state.
So where it is can be told from how often it has moved, and a state is left with every
move whose number has the right remainder. All that a protocol wants of a machine is
about the order of moves and follows from that: between two moves out of one state there
is one move out of each other state.

## Main definitions

* `LinearMachine.moves`: The state of a machine is left.
* `LinearMachine.Leaves`: A certain state is left.
* `LinearMachine.Walks`: A machine goes round from its first state on.

## Theorems

* `LinearMachine.walks_of_runs`: The logic of a machine goes round.
* `LinearMachine.raised_iff`: Outputs are raised in their states.
* `LinearMachine.Walks.leaves_once`: Between two moves out of a state.
* `LinearMachine.Walks.leaves_before`: Before a move out of a state.
* `LinearMachine.Walks.stays`: A machine waits for its move.
-/

namespace StencilRtl

section Counting

variable {moves : Nat → Prop} [DecidablePred moves] {n i j t u : Nat}

/-- Before a move there has been one with each smaller number. -/
theorem exists_move {k : Nat} (h : k < Nat.count moves u) :
    ∃ v < u, moves v ∧ Nat.count moves v = k := by
  induction u with
  | zero => exact absurd h (Nat.not_lt_zero k)
  | succ u ih =>
      rw [Nat.count_succ] at h
      by_cases hbefore : k < Nat.count moves u
      · rcases ih hbefore with ⟨v, hv, hmove⟩
        exact ⟨v, Nat.lt_succ_of_lt hv, hmove⟩
      · by_cases hmove : moves u
        · rw [if_pos hmove] at h
          exact ⟨u, Nat.lt_succ_self u, hmove, by omega⟩
        · rw [if_neg hmove] at h
          exact absurd h hbefore

/-- A move with a larger number comes later. -/
theorem lt_of_count_lt (h : Nat.count moves t < Nat.count moves u) : t < u :=
  Nat.lt_of_not_le fun hle => Nat.not_le_of_lt h (Nat.count_monotone moves hle)

/-- Moves with one remainder that follow each other are a whole round apart. -/
theorem count_next_round (ht : moves t) (htu : t < u)
    (hsame : Nat.count moves t % n = Nat.count moves u % n)
    (hnone : ∀ v, t < v → v < u → moves v → Nat.count moves v % n ≠ Nat.count moves t % n) :
    Nat.count moves u = Nat.count moves t + n := by
  have hround := Nat.ModEq.add_le_of_lt hsame (Nat.count_strict_mono ht htu)
  -- If they were further apart, the move one round after the first would lie between them.
  by_contra hfar
  have hbelow : Nat.count moves t + n < Nat.count moves u := by omega
  rcases exists_move hbelow with ⟨v, hv, hmove, hcount⟩
  have hlater : Nat.count moves t < Nat.count moves v := by
    refine Nat.lt_of_le_of_ne (by omega) fun heq => hnone v ?_ hv hmove (by rw [← heq])
    have hzero : n = 0 := by omega
    subst hzero
    exact absurd hsame (by simp only [Nat.mod_zero]; omega)
  exact hnone v (lt_of_count_lt hlater) hv hmove (by rw [hcount, Nat.add_mod_right])

/-- In a whole round there is one move with each remainder. -/
theorem exists_unique_move (hi : Nat.count moves t % n = i) (hmove : moves t)
    (hround : Nat.count moves u = Nat.count moves t + n) (hij : i ≠ j) (hj : j < n) :
    ∃! v, (t < v ∧ v < u) ∧ moves v ∧ Nat.count moves v % n = j := by
  have hlt : i < n := hi ▸ Nat.mod_lt _ (by omega)
  have hcount := Nat.div_add_mod (Nat.count moves t) n
  -- The number with the remainder is in the same block of `n` numbers or in the next one.
  obtain ⟨k, hk, hkn⟩ : ∃ k, (Nat.count moves t < k ∧ k < Nat.count moves t + n) ∧ k % n = j := by
    by_cases hless : i < j
    · refine ⟨n * (Nat.count moves t / n) + j, by omega, ?_⟩
      rw [Nat.mul_add_mod, Nat.mod_eq_of_lt hj]
    · refine ⟨n * (Nat.count moves t / n) + (n + j), by omega, ?_⟩
      rw [Nat.mul_add_mod, Nat.add_mod_left, Nat.mod_eq_of_lt hj]
  rcases exists_move (hround ▸ hk.2) with ⟨v, hv, hmoves, hnumber⟩
  have htv : t < v := lt_of_count_lt (hnumber ▸ hk.1)
  refine ⟨v, ⟨⟨htv, hv⟩, hmoves, by rw [hnumber, hkn]⟩, ?_⟩
  rintro w ⟨⟨htw, hwu⟩, hw, hwn⟩
  have hafter := Nat.count_strict_mono hmove htw
  have hbefore := Nat.count_strict_mono hw hwu
  refine Nat.count_injective hw hmoves ?_
  -- Two numbers with one remainder are not both in the round unless they are equal.
  have hsame : Nat.count moves w ≡ k [MOD n] := hwn.trans hkn.symm
  rcases Nat.lt_trichotomy (Nat.count moves w) k with hless | heq | hmore
  · have hfar := hsame.add_le_of_lt hless
    omega
  · rw [heq, hnumber]
  · have hfar := hsame.symm.add_le_of_lt hmore
    omega

/-- Before a move there has been one with a smaller remainder, and none with either of the
    two in between. -/
theorem exists_move_before (hu : Nat.count moves u % n = j) (hij : i < j) (hj : j < n) :
    ∃ t < u, (moves t ∧ Nat.count moves t % n = i) ∧ ∀ v, t < v → v < u → moves v →
      Nat.count moves v % n ≠ i ∧ Nat.count moves v % n ≠ j := by
  have hcount := Nat.div_add_mod (Nat.count moves u) n
  obtain ⟨t, ht, hmove, hnumber⟩ : ∃ t < u, moves t ∧
      Nat.count moves t = n * (Nat.count moves u / n) + i := exists_move (by omega)
  refine ⟨t, ht, ⟨hmove, by rw [hnumber, Nat.mul_add_mod, Nat.mod_eq_of_lt (by omega)]⟩, ?_⟩
  intro v htv hvu hv
  have hafter := Nat.count_strict_mono hmove htv
  have hbefore := Nat.count_strict_mono hv hvu
  obtain ⟨k, hk⟩ : ∃ k, Nat.count moves v = n * (Nat.count moves u / n) + k :=
    Nat.exists_eq_add_of_le (by omega)
  rw [hk, Nat.mul_add_mod, Nat.mod_eq_of_lt (by omega)]
  omega

end Counting

namespace Rtl

/-- A plain number with a small value, put into a target of any width. -/
theorem Expr.assigned_plain {Γ : Typing} {s : State} {n : Nat} (hn : n < 2 ^ 31) (width : Nat) :
    (plain n).assigned Γ s width = n % 2 ^ width := by
  rw [plain, assigned, value, isSigned, ofInt_signed32 (by omega), extend,
    decide_eq_false (by omega), Bool.and_false, if_neg Bool.false_ne_true]

end Rtl

namespace LinearMachine

open Rtl

variable {machine : LinearMachine} {Γ : Typing}

/-- The condition under which a machine leaves the state it is in holds. -/
def moves (machine : LinearMachine) (Γ : Typing) (s : State) : Bool :=
  machine.states[s.value machine.stateRegister]?.any fun st => st.leave.own Γ s ≠ 0

/-- A machine leaves its state with number `i`. -/
def Leaves (machine : LinearMachine) (Γ : Typing) (s : State) (i : Nat) : Prop :=
  machine.moves Γ s = true ∧ s.value machine.stateRegister = i

/-- A state is left if a machine is in it and its condition holds. -/
theorem leaves_iff {s : State} {i : Nat} {st : MachineState} (hst : machine.states[i]? = some st) :
    machine.Leaves Γ s i ↔ s.value machine.stateRegister = i ∧ st.leave.own Γ s ≠ 0 := by
  rw [Leaves, moves, and_comm]
  refine and_congr_right fun hi => ?_
  rw [hi, hst, Option.any_some, decide_eq_true_eq]

/-- A machine goes round from its first state on, one state with every move. -/
structure Walks (machine : LinearMachine) (Γ : Typing) (σ : Nat → State) : Prop where
  first : (σ 0).value machine.stateRegister = 0
  next : ∀ t, (σ (t + 1)).value machine.stateRegister
    = if machine.moves Γ (σ t) = true then
        ((σ t).value machine.stateRegister + 1) % machine.states.length
      else (σ t).value machine.stateRegister

namespace Walks

variable {σ : Nat → State} {i j t u : Nat}

/-- Where a machine is, is told by the number of its moves. -/
theorem state_eq (h : machine.Walks Γ σ) (t : Nat) : (σ t).value machine.stateRegister
    = Nat.count (fun t => machine.moves Γ (σ t) = true) t % machine.states.length := by
  induction t with
  | zero => rw [h.first, Nat.count_zero, Nat.zero_mod]
  | succ t ih =>
      rw [h.next, Nat.count_succ]
      by_cases hmove : machine.moves Γ (σ t) = true
      · rw [if_pos hmove, if_pos hmove, ih, Nat.mod_add_mod]
      · rw [if_neg hmove, if_neg hmove, ih, Nat.add_zero]

theorem leaves_iff_count (h : machine.Walks Γ σ) : machine.Leaves Γ (σ t) i ↔
    machine.moves Γ (σ t) = true ∧
      Nat.count (fun t => machine.moves Γ (σ t) = true) t % machine.states.length = i := by
  rw [Leaves, h.state_eq]

/-- Between two moves out of a state, with no other one in between, there is one move out
    of each other state. -/
theorem leaves_once (h : machine.Walks Γ σ) (ht : machine.Leaves Γ (σ t) i)
    (hu : machine.Leaves Γ (σ u) i) (htu : t < u)
    (hnone : ∀ v, t < v → v < u → ¬machine.Leaves Γ (σ v) i) (hij : i ≠ j)
    (hj : j < machine.states.length) : ∃! v, (t < v ∧ v < u) ∧ machine.Leaves Γ (σ v) j := by
  simp only [h.leaves_iff_count] at ht hu hnone ⊢
  refine exists_unique_move ht.2 ht.1 ?_ hij hj
  refine count_next_round ht.1 htu (ht.2.trans hu.2.symm) fun v htv hvu hv hsame => ?_
  exact hnone v htv hvu ⟨hv, hsame.trans ht.2⟩

/-- Before a move out of a state there has been one out of each earlier state, and none
    out of either of the two in between. -/
theorem leaves_before (h : machine.Walks Γ σ) (hu : machine.Leaves Γ (σ u) j) (hij : i < j)
    (hj : j < machine.states.length) : ∃ t < u, machine.Leaves Γ (σ t) i ∧
      ∀ v, t < v → v < u → ¬machine.Leaves Γ (σ v) i ∧ ¬machine.Leaves Γ (σ v) j := by
  simp only [h.leaves_iff_count] at hu ⊢
  rcases exists_move_before hu.2 hij hj with ⟨t, htu, ht, hnone⟩
  refine ⟨t, htu, ht, fun v htv hvu => ?_⟩
  exact ⟨fun hv => (hnone v htv hvu hv.1).1 hv.2, fun hv => (hnone v htv hvu hv.1).2 hv.2⟩

/-- A move leads to the next state. -/
theorem enters (h : machine.Walks Γ σ) (ht : machine.Leaves Γ (σ t) i)
    (hi : i + 1 < machine.states.length) : (σ (t + 1)).value machine.stateRegister = i + 1 := by
  rw [h.next, if_pos ht.1, ht.2, Nat.mod_eq_of_lt hi]

/-- A machine stays where it is until it moves. -/
theorem stays (h : machine.Walks Γ σ) (ht : (σ t).value machine.stateRegister = i) (htu : t ≤ u)
    (hnone : ∀ v, t ≤ v → v < u → ¬machine.Leaves Γ (σ v) i) :
    (σ u).value machine.stateRegister = i := by
  induction u, htu using Nat.le_induction with
  | base => exact ht
  | succ u htu ih =>
      have hi := ih fun v htv hvu => hnone v htv (Nat.lt_succ_of_lt hvu)
      rw [h.next, if_neg fun hmove => hnone u htu (Nat.lt_succ_self u) ⟨hmove, hi⟩, hi]

end Walks

/-- What happens in a state, with nothing to do outside of the states. -/
def stepFrom (machine : LinearMachine) (i : Nat) : List Rtl.Stmt :=
  (machine.states[i]?.map fun st => (machine.branch i st).2).getD []

/-- The branches of a machine, one for each state. -/
theorem branches_eq (machine : LinearMachine) : machine.states.mapIdx machine.branch
    = (List.range machine.states.length).map fun i => (signed32 i, machine.stepFrom i) := by
  refine List.ext_getElem? fun i => ?_
  rw [List.getElem?_mapIdx, List.getElem?_map]
  cases hst : machine.states[i]? with
  | none =>
      rw [List.getElem?_eq_none_iff] at hst
      rw [List.getElem?_eq_none_iff.mpr (by rw [List.length_range]; exact hst)]
      rfl
  | some st =>
      have hi := (List.getElem?_eq_some_iff.mp hst).1
      rw [List.getElem?_range hi, Option.map_some, Option.map_some, stepFrom, hst]
      rfl

/-- The state a machine is in after the next clock edge. -/
def following (machine : LinearMachine) (Γ : Typing) (s : State) : Nat :=
  if machine.moves Γ s = true then
    (s.value machine.stateRegister + 1) % machine.states.length
  else s.value machine.stateRegister

/-- A number of a state is put into the signal of the next one. -/
theorem now_goTo {s : State} {i : Nat} (hwidth : Γ.width machine.nextSignal = machine.width)
    (hsmall : machine.states.length < 2 ^ 31) (hi : i < machine.states.length) :
    (Stmt.executeAll Γ ⟨s, s⟩ [machine.goTo i]).now.value machine.nextSignal = i := by
  have hroom : i < 2 ^ machine.width := Nat.lt_of_lt_of_le hi (le_two_pow_bitsNeededFor _)
  rw [Stmt.executeAll, Stmt.executeAll, goTo, Stmt.execute, State.put, State.setValue,
    Expr.assigned_plain (by omega), hwidth, Nat.mod_eq_of_lt hroom]
  exact Function.update_self ..

/-- What happens in a state leads to the one that follows. -/
theorem now_stepFrom {s : State} (hwidth : Γ.width machine.nextSignal = machine.width)
    (hsmall : machine.states.length < 2 ^ 31)
    (hstate : s.value machine.stateRegister < machine.states.length) :
    (Stmt.executeAll Γ ⟨s, s⟩ (machine.stepFrom (s.value machine.stateRegister))).now.value
      machine.nextSignal = machine.following Γ s := by
  have hst := List.getElem?_eq_getElem hstate
  have hround : (s.value machine.stateRegister + 1) % machine.states.length
      < machine.states.length := Nat.mod_lt _ (by omega)
  rw [stepFrom, following, moves, hst, Option.map_some, Option.getD_some, Option.any_some, branch,
    Stmt.executeAll, Stmt.executeAll, Stmt.execute, Stmt.executeElse, Stmt.executeFirst,
    Stmt.executeFirst]
  simp only [decide_eq_true_eq]
  split
  · exact now_goTo hwidth hsmall hround
  · exact now_goTo hwidth hsmall hstate

section

variable {library : String → Option Module} {m : Module} {τ : Nat → State} {items : List Item}
  (hbody : machine.body = .ok items) (hsub : ∀ i ∈ items, i ∈ m.body)
  (h : m.Runs library Γ τ)

include hbody hsub h

/-- The next state of a machine has settled. -/
theorem nextSignal_eq (hsmall : machine.states.length < 2 ^ 31) {t : Nat}
    (hstate : (τ t).value machine.stateRegister < machine.states.length) :
    (τ t).value machine.nextSignal = machine.following Γ (τ t) := by
  have hwidth := h.width_eq (Module.signals_of_reg
    (hsub _ (Body.join_reg hbody (List.mem_of_getElem? (i := 1) rfl))))
  have hitem : .process .combinational [.case (.ref machine.stateRegister)
      (machine.states.mapIdx machine.branch) (some [machine.goTo 0])] ∈ m.body := by
    rcases Body.join_part hbody hsub (List.mem_of_getElem? (i := 4) rfl) with ⟨own, hown, hin⟩
    rcases Except.ok.inj hown with rfl
    exact hin _ (List.mem_singleton_self _)
  have hsettled := (h.holds t _ hitem machine.nextSignal (by
    simp [Stmt.targetsOfAll, Stmt.targets, Stmt.targetsOfElse, goTo, Expr.target?])).1
  rw [branches_eq, Stmt.executeAll, Stmt.executeAll, Stmt.execute, Stmt.executeCase_labels
    (fun i hi => by have := List.mem_range.mp hi; omega) (List.mem_range.mpr hstate)] at hsettled
  rw [hsettled, now_stepFrom hwidth hsmall hstate]

/-- A machine goes on to the state that follows, unless it is reset. -/
theorem state_next (hclear : (reset, 1) ∈ m.signals) (hsmall : machine.states.length < 2 ^ 31)
    {t : Nat} (hstate : (τ t).value reset ≠ 1 →
      (τ t).value machine.stateRegister < machine.states.length) :
    (τ (t + 1)).value machine.stateRegister
      = if (τ t).value reset = 1 then 0 else machine.following Γ (τ t) := by
  have hwidth := h.width_eq (Module.signals_of_reg
    (hsub _ (Body.join_reg hbody (List.mem_of_getElem? (i := 0) rfl))))
  have hnext := h.value_lt (Module.signals_of_reg
    (hsub _ (Body.join_reg hbody (List.mem_of_getElem? (i := 1) rfl)))) t
  have hitem : .process .clocked [.choose [(.ref reset,
        [.update (.ref machine.stateRegister) (.number 0)])]
      (some [.update (.ref machine.stateRegister) (.ref machine.nextSignal)])] ∈ m.body := by
    rcases Body.join_part hbody hsub (List.mem_of_getElem? (i := 2) rfl) with ⟨own, hown, hin⟩
    rcases Except.ok.inj hown with rfl
    exact hin _ (List.mem_singleton_self _)
  -- The clock edge stores the next state as it has settled before.
  have hafter := (h.holds t _ hitem machine.stateRegister (by
    simp [Stmt.targetsOfAll, Stmt.targets, Stmt.targetsOfBranches, Expr.target?])).1
  rw [Stmt.executeAll, Stmt.executeAll, Stmt.execute, Stmt.executeElse, Stmt.executeFirst,
    Stmt.executeFirst] at hafter
  by_cases hreset : (τ t).value reset = 1
  · rw [if_pos ((h.isBit hclear t).own_ne_zero.mpr hreset)] at hafter
    rw [if_pos hreset, hafter, Stmt.executeAll, Stmt.executeAll, Stmt.execute, State.put,
      Expr.assigned_zero]
    exact Function.update_self ..
  · rw [if_neg (mt (h.isBit hclear t).own_ne_zero.mp hreset)] at hafter
    rw [if_neg hreset, hafter, Stmt.executeAll, Stmt.executeAll, Stmt.execute, State.put, hwidth,
      Expr.assigned_ref hnext, nextSignal_eq hbody hsub h hsmall (hstate hreset)]
    exact Function.update_self ..

/-- The logic of a machine goes round from the reset on. -/
theorem walks_of_runs (hreset : FromReset τ) (hclear : (reset, 1) ∈ m.signals)
    (hsmall : machine.states.length < 2 ^ 31) (hsome : machine.states ≠ []) :
    machine.Walks Γ fun t => τ (t + 1) := by
  have hlength : 0 < machine.states.length := List.length_pos_iff.mpr hsome
  have hfirst : (τ 1).value machine.stateRegister = 0 := by
    rw [state_next hbody hsub h hclear hsmall (absurd hreset.first), if_pos hreset.first]
  have hnext : ∀ t, (τ (t + 1)).value machine.stateRegister < machine.states.length →
      (τ (t + 2)).value machine.stateRegister = machine.following Γ (τ (t + 1)) := by
    intro t hstate
    rw [state_next hbody hsub h hclear hsmall fun _ => hstate, hreset.later,
      if_neg Nat.zero_ne_one]
  -- What follows is only known of the states of the machine, so it has to be in one of them.
  have hbelow : ∀ t, (τ (t + 1)).value machine.stateRegister < machine.states.length := by
    intro t
    induction t with
    | zero => rw [hfirst]; exact hlength
    | succ t ih =>
        rw [hnext t ih, following]
        split
        · exact Nat.mod_lt _ hlength
        · exact ih
  exact ⟨hfirst, fun t => hnext t (hbelow t)⟩

/-- An output is raised just in its own state. -/
theorem raised_iff {i : Nat} {st : MachineState} (hst : machine.states[i]? = some st)
    {output : String} (houtput : output ∈ st.outputs) (hdeclared : (output, 1) ∈ m.signals)
    (t : Nat) : (τ t).value output = 1 ↔ (τ t).value machine.stateRegister = i := by
  have hi : i < 2 ^ machine.width := Nat.lt_of_lt_of_le (List.getElem?_eq_some_iff.mp hst).1
    (le_two_pow_bitsNeededFor _)
  have hitem : .assign (.ref output) (machine.isIn i) ∈ m.body := by
    rcases Body.join_part hbody hsub (List.mem_of_getElem? (i := 3) rfl) with ⟨own, hown, hin⟩
    have hraised : machine.raised i st ∈ machine.states.mapIdx machine.raised :=
      List.mem_of_getElem? (i := i) (by rw [List.getElem?_mapIdx, hst, Option.map_some])
    rcases Body.join_part hown hin hraised with ⟨outs, houts, hin⟩
    exact hin _ (Body.join_assign houts (List.mem_map_of_mem houtput))
  exact h.bit_iff hdeclared hitem (Expr.isBit_hasValue hi)

end

end LinearMachine

end StencilRtl
