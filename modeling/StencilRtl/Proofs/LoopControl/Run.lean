import Mathlib.Data.List.Chain
import StencilRtl.Proofs.LoopControl.Positions

/-!
# Runs of a Loop Controller

What a controller does between a start and the next one, whatever its
surroundings tell it in the meantime.

A run is the list of its cycles. Everything it is said to do is a statement
about that list: which positions were loaded, which cycle was the last of a
window, when the controller reported that it was done. `Reached` ties such a
list to the state it has led to. While the controller walks, the number of loads
so far names the counters and the phase, so nothing else has to be remembered;
when the last position has been loaded the counters are back at their first
values, and all that is left to count are the cycles spent in the flush phase.

`Reached.tick` is the step and the only place where the controller's own
definition is opened, through `tick_eq`. Everything after it is about lists.

## Main definitions

* `LoopTick`: A cycle of a controller.
* `LoopState.trace`: The cycles from a state under some inputs.
* `LoopTick.loads`: The positions loaded, in order.
* `LoopState.Rested`: The controller waits for a start at its first position.
* `Reached`: What a run so far says about the state it has led to.
* `LoopRun`: What holds of a run.

## Theorems

* `tick_eq`: A cycle in terms of the numbers of the current positions.
* `Reached.tick`: A cycle continues a run.
* `Reached.trace`: So do any number of cycles.
* `tick_start`: The start begins a run from any idle state.
* `trace_loopRun`: A run from a start loads each position once and in order.
-/

namespace StencilRtl

/-- One cycle of a controller: where it was, what it was told, what it said. -/
structure LoopTick where
  before : LoopState
  inputs : LoopInputs
  outputs : LoopOutputs

namespace LoopTick

/-- The positions loaded in some cycles, scan variables first. -/
def loads (ticks : List LoopTick) : List (List Nat) :=
  (ticks.filter fun t => t.outputs.load).map fun t => t.outputs.scan ++ t.outputs.window

/-- The number of cycles spent in the flush phase. -/
def flushes (ticks : List LoopTick) : Nat :=
  ticks.countP fun t => t.before.phase = .flush

theorem loads_append (xs ys : List LoopTick) : loads (xs ++ ys) = loads xs ++ loads ys := by
  simp only [loads, List.filter_append, List.map_append]

theorem flushes_append (xs ys : List LoopTick) :
    flushes (xs ++ ys) = flushes xs + flushes ys := by
  simp only [flushes, List.countP_append]

theorem loads_of_load {t : LoopTick} (h : t.outputs.load = true) :
    loads [t] = [t.outputs.scan ++ t.outputs.window] := by
  simp only [loads, List.filter_cons, h, if_true, List.filter_nil, List.map_cons, List.map_nil]

theorem loads_of_not_load {t : LoopTick} (h : t.outputs.load = false) : loads [t] = [] := by
  simp only [loads, List.filter_cons, h, Bool.false_eq_true, if_false, List.filter_nil,
    List.map_nil]

end LoopTick

namespace LoopState

open LoopVar

/-- The cycles from a state under some inputs, and the state they end in. -/
def trace (c : LoopControl) (s : LoopState) :
    List LoopInputs → Fallible (List LoopTick × LoopState)
  | [] => .ok ([], s)
  | i :: rest => do
      let (o, next) ← tick c s i
      let (ticks, last) ← next.trace c rest
      return (⟨s, i, o⟩ :: ticks, last)

/-- The controller waits for a start with every counter at its first value. -/
def Rested (c : LoopControl) (s : LoopState) : Prop :=
  s.phase = .idle ∧ s.scan = c.scan.map LoopVar.min ∧ s.window = c.window.map LoopVar.min

/-- Whether a cycle loads a position. -/
def loadsNow (s : LoopState) (i : LoopInputs) : Bool :=
  (s.phase = .first && i.inValid && i.space) || (s.phase = .rest && i.space)

/-- Checking the counters never gives way when the variables run. -/
theorem allAtMax_isOk {vars : List LoopVar} (hv : ∀ v ∈ vars, v.Runs) (counters : List Nat) :
    ∃ b, allAtMax vars counters = .ok b := by
  induction vars generalizing counters with
  | nil => exact ⟨true, by cases counters <;> rfl⟩
  | cons v inner ih =>
      cases counters with
      | nil => exact ⟨true, rfl⟩
      | cons k rest =>
          simp only [allAtMax, (hv v (List.mem_cons_self ..)).max_eq, bind, Except.bind]
          by_cases hk : k = v.min + v.extent - 1
          · rw [if_pos hk]
            exact ih (fun w hw => hv w (List.mem_cons_of_mem v hw)) rest
          · rw [if_neg hk]
            exact ⟨false, rfl⟩

/-- The counters are at their last values if the check says so. -/
theorem forall₂_of_allAtMax {vars : List LoopVar} {counters : List Nat} {b : Bool}
    (hlen : counters.length = vars.length) (h : allAtMax vars counters = .ok b) :
    b = true ↔ List.Forall₂ (fun v k => v.max = .ok k) vars counters := by
  induction vars generalizing counters with
  | nil =>
      cases counters with
      | nil =>
          simp only [allAtMax, Except.ok.injEq] at h
          simp only [← h, List.Forall₂.nil]
      | cons k rest => exact absurd hlen (by simp only [List.length_cons, List.length_nil,
          Nat.succ_ne_zero, not_false_eq_true])
  | cons v inner ih =>
      cases counters with
      | nil => exact absurd hlen.symm (by simp only [List.length_cons, List.length_nil,
          Nat.succ_ne_zero, not_false_eq_true])
      | cons k rest =>
          simp only [List.length_cons, Nat.add_right_cancel_iff] at hlen
          rcases Fallible.bind_ok.mp h with ⟨last, hmax, h⟩
          -- The check ends at the first counter that is not at its last value.
          by_cases hk : k = last
          · rw [if_pos hk] at h
            rw [ih hlen h, List.forall₂_cons, hmax, hk]
            exact (and_iff_right rfl).symm
          · rw [if_neg hk] at h
            have hb : b = false := (Except.ok.inj h).symm
            rw [hb, List.forall₂_cons, hmax]
            refine iff_of_false Bool.false_ne_true fun hall => hk ?_
            exact (Except.ok.inj hall.1).symm

/-- A cycle without a start, in terms of the numbers of the current positions. -/
theorem tick_eq {c : LoopControl} (hc : ∀ v ∈ c.vars, v.Runs) {s : LoopState} {i : LoopInputs}
    {a b : Nat} (ha : a < volume c.scan) (hb : b < volume c.window)
    (hscan : s.scan = position c.scan a) (hwindow : s.window = position c.window b)
    (hi : i.start = false) :
    s.tick c i = .ok
      (⟨s.loadsNow i, s.loadsNow i && decide (b + 1 = volume c.window),
        s.phase = .flush && c.latency ≤ s.flush && i.drained, s.scan, s.window⟩,
       ⟨if s.loadsNow i then
          if b + 1 = volume c.window then
            if a + 1 = volume c.scan then .flush else .first
          else .rest
        else if s.phase = .flush && c.latency ≤ s.flush && i.drained then .idle else s.phase,
        if s.loadsNow i && decide (b + 1 = volume c.window) then
          position c.scan ((a + 1) % volume c.scan)
        else s.scan,
        if s.loadsNow i then position c.window ((b + 1) % volume c.window) else s.window,
        if s.phase = .flush && s.flush < c.latency then s.flush + 1 else s.flush⟩) := by
  have hvs : ∀ v ∈ c.scan, v.Runs := fun v hv => hc v (List.mem_append_left _ hv)
  have hvw : ∀ v ∈ c.window, v.Runs := fun v hv => hc v (List.mem_append_right _ hv)
  have hmaxs : allAtMax c.scan s.scan = .ok (decide (a + 1 = volume c.scan)) := by
    rw [hscan, allAtMax_position hvs ha]
  have hmaxw : allAtMax c.window s.window = .ok (decide (b + 1 = volume c.window)) := by
    rw [hwindow, allAtMax_position hvw hb]
  have hmoves : moved c.scan s.scan = .ok (position c.scan ((a + 1) % volume c.scan)) := by
    rw [hscan, moved, stepNest_position hvs ha]
    rfl
  have hmovew : moved c.window s.window = .ok (position c.window ((b + 1) % volume c.window)) := by
    rw [hwindow, moved, stepNest_position hvw hb]
    rfl
  rcases s with ⟨phase, scan, window, flush⟩
  rcases i with ⟨start, inValid, space, drained⟩
  simp only at hi hmaxs hmaxw hmoves hmovew
  -- The phases and the two checks decide which branch is taken.
  cases phase <;> cases inValid <;> cases space <;>
    by_cases hw : b + 1 = volume c.window <;> by_cases hs : a + 1 = volume c.scan <;>
    simp [tick, loadsNow, hmaxs, hmaxw, hmoves, hmovew, hi, hw, hs, bind, Except.bind, pure,
      Except.pure]

/-- The start begins a run at the first position, wherever the counters of an
    idle controller stand. -/
theorem tick_start {c : LoopControl} (hc : ∀ v ∈ c.vars, v.Runs) {s : LoopState}
    {i : LoopInputs} (hs : s.phase = .idle) (hi : i.start = true) :
    s.tick c i = .ok (⟨false, false, false, s.scan, s.window⟩,
      { initial c with phase := .first }) := by
  have hvs : ∀ v ∈ c.scan, v.Runs := fun v hv => hc v (List.mem_append_left _ hv)
  rcases allAtMax_isOk hvs s.scan with ⟨b, hb⟩
  simp [tick, hs, hi, hb, bind, Except.bind, pure, Except.pure]

/-- A trace is its first cycle and the trace behind it. -/
theorem trace_cons_ok {c : LoopControl} {s final : LoopState} {i : LoopInputs}
    {rest : List LoopInputs} {ticks : List LoopTick} :
    s.trace c (i :: rest) = .ok (ticks, final) ↔ ∃ o next later, s.tick c i = .ok (o, next) ∧
      next.trace c rest = .ok (later, final) ∧ ticks = ⟨s, i, o⟩ :: later := by
  rw [trace, Fallible.bind_ok]
  constructor
  · rintro ⟨⟨o, next⟩, htick, h⟩
    rcases Fallible.bind_ok.mp h with ⟨⟨later, last⟩, hlater, hpair⟩
    rcases Except.ok.inj hpair with ⟨⟩
    exact ⟨o, next, later, htick, hlater, rfl⟩
  · rintro ⟨o, next, later, htick, hlater, rfl⟩
    exact ⟨(o, next), htick, Fallible.bind_ok.mpr ⟨(later, final), hlater, rfl⟩⟩

/-- A trace keeps the inputs it was made from. -/
theorem inputs_trace {c : LoopControl} {s : LoopState} {inputs : List LoopInputs}
    {ticks : List LoopTick} {final : LoopState} (h : s.trace c inputs = .ok (ticks, final)) :
    ticks.map LoopTick.inputs = inputs := by
  induction inputs generalizing s ticks with
  | nil =>
      rcases Except.ok.inj h with ⟨⟩
      rfl
  | cons i rest ih =>
      rcases trace_cons_ok.mp h with ⟨o, next, later, _, hlater, rfl⟩
      rw [List.map_cons, ih hlater]

end LoopState

open LoopState LoopVar LoopTick

/-- What a run so far says about the state it has led to. While the controller
    walks, `n` positions have been loaded and the counters hold the next one; it
    is the first of a window exactly in the phase called so. -/
inductive Reached (c : LoopControl) (ticks : List LoopTick) (s : LoopState) : Prop
  | walking (n : Nat) (hn : n < volume c.vars)
      (hloads : loads ticks = (positions c.vars).take n)
      (hscan : s.scan = position c.scan (n / volume c.window))
      (hwindow : s.window = position c.window (n % volume c.window))
      (hphase : s.phase = if n % volume c.window = 0 then .first else .rest)
      (hflush : s.flush = 0)
      (hundone : ∀ t ∈ ticks, t.outputs.done = false)
  | draining (hloads : loads ticks = positions c.vars)
      (hscan : s.scan = c.scan.map LoopVar.min) (hwindow : s.window = c.window.map LoopVar.min)
      (hphase : s.phase = .flush) (hflush : s.flush ≤ flushes ticks)
      (hundone : ∀ t ∈ ticks, t.outputs.done = false)
  | rested (hloads : loads ticks = positions c.vars) (hrested : s.Rested c)

namespace Reached

variable {c : LoopControl} {ticks : List LoopTick} {s : LoopState} {i : LoopInputs}

/-- The counters always hold a position of their nests. -/
theorem counters (hc : ∀ v ∈ c.vars, v.Runs) (h : Reached c ticks s) :
    ∃ a b, a < volume c.scan ∧ b < volume c.window ∧
      s.scan = position c.scan a ∧ s.window = position c.window b := by
  have hs : 0 < volume c.scan :=
    volume_pos fun v hv => (hc v (List.mem_append_left _ hv)).1
  have hw : 0 < volume c.window :=
    volume_pos fun v hv => (hc v (List.mem_append_right _ hv)).1
  cases h with
  | walking n hn _ hscan hwindow =>
      rw [LoopControl.vars, volume_append, Nat.mul_comm] at hn
      exact ⟨_, _, Nat.div_lt_of_lt_mul hn, Nat.mod_lt n hw, hscan, hwindow⟩
  | draining _ hscan hwindow =>
      exact ⟨0, 0, hs, hw, by rw [hscan, position_zero], by rw [hwindow, position_zero]⟩
  | rested _ hrested =>
      exact ⟨0, 0, hs, hw, by rw [hrested.2.1, position_zero], by rw [hrested.2.2, position_zero]⟩

/-- A load takes a walking controller to the next position, or into the flush
    phase behind the last one. -/
theorem load (hc : ∀ v ∈ c.vars, v.Runs) {n : Nat} (hn : n < volume c.vars)
    (hloads : loads ticks = (positions c.vars).take n)
    (hscan : s.scan = position c.scan (n / volume c.window))
    (hwindow : s.window = position c.window (n % volume c.window))
    (hphase : s.phase = if n % volume c.window = 0 then .first else .rest)
    (hflush : s.flush = 0) (hundone : ∀ t ∈ ticks, t.outputs.done = false)
    (hi : i.start = false) (hload : s.loadsNow i = true) :
    ∃ o next, s.tick c i = .ok (o, next) ∧ Reached c (ticks ++ [⟨s, i, o⟩]) next := by
  have hw : 0 < volume c.window :=
    volume_pos fun v hv => (hc v (List.mem_append_right _ hv)).1
  have hvol : volume c.vars = volume c.window * volume c.scan := by
    rw [LoopControl.vars, volume_append, Nat.mul_comm]
  have ha : n / volume c.window < volume c.scan := Nat.div_lt_of_lt_mul (by rwa [← hvol])
  have hb : n % volume c.window < volume c.window := Nat.mod_lt n hw
  have hnot : ¬ s.phase = .flush := by
    intro hf
    rw [hf] at hphase
    split at hphase <;> exact absurd hphase (by decide)
  have htick := tick_eq hc ha hb hscan hwindow hi
  simp only [hload, hnot, decide_false, Bool.false_and, Bool.true_and, if_true,
    Bool.false_eq_true, if_false, decide_eq_true_eq] at htick
  refine ⟨_, _, htick, ?_⟩
  -- The position just loaded is the one with number `n`.
  have hnew : ∀ o : LoopOutputs, o.load = true → o.scan = s.scan → o.window = s.window →
      loads (ticks ++ [⟨s, i, o⟩]) = (positions c.vars).take (n + 1) := by
    intro o ho hos how
    rw [loads_append, loads_of_load ho, hloads, take_succ_positions hn, hos, how, hscan, hwindow,
      LoopControl.vars, position_append _ _ _ hn]
  have hquiet : ∀ o : LoopOutputs, o.done = false →
      ∀ t ∈ ticks ++ [⟨s, i, o⟩], t.outputs.done = false := by
    intro o ho t ht
    rcases List.mem_append.mp ht with ht | ht
    · exact hundone t ht
    · rw [List.mem_singleton.mp ht]
      exact ho
  have hsplit : volume c.window * (n / volume c.window) + n % volume c.window = n :=
    Nat.div_add_mod ..
  generalize hA : n / volume c.window = a at *
  generalize hB : n % volume c.window = b at *
  by_cases hlast : b + 1 = volume c.window
  · have hnext : n + 1 = volume c.window * (a + 1) := by rw [Nat.mul_succ]; omega
    by_cases hdone : a + 1 = volume c.scan
    · -- Every position has been loaded, and both nests are back at the first.
      have hall : n + 1 = volume c.vars := by rw [hnext, hdone, hvol]
      refine .draining ?_ ?_ ?_ ?_ ?_ (hquiet _ rfl)
      · rw [hnew _ rfl rfl rfl, hall, ← length_positions, List.take_length]
      · simp only [hlast, if_true, hdone, Nat.mod_self, position_zero]
      · simp only [hlast, Nat.mod_self, position_zero]
      · simp only [hlast, hdone, if_true]
      · simp only [hflush, Nat.zero_le]
    · have hlt : n + 1 < volume c.vars := by
        rw [hnext, hvol]
        exact Nat.mul_lt_mul_of_pos_left (by omega) hw
      have hdiv : (n + 1) / volume c.window = a + 1 := by
        rw [hnext, Nat.mul_div_cancel_left _ hw]
      have hmod : (n + 1) % volume c.window = 0 := by rw [hnext, Nat.mul_mod_right]
      refine .walking (n + 1) hlt (hnew _ rfl rfl rfl) ?_ ?_ ?_ ?_ (hquiet _ rfl)
      · simp only [hlast, if_true, hdiv, Nat.mod_eq_of_lt (show a + 1 < volume c.scan by omega)]
      · simp only [hlast, hmod, Nat.mod_self]
      · simp only [hlast, hdone, hmod, if_true, if_false]
      · exact hflush
  · have hlt : b + 1 < volume c.window := by omega
    have hdiv : (n + 1) / volume c.window = a := by
      rw [← hsplit, Nat.add_assoc, Nat.mul_add_div hw, Nat.div_eq_of_lt hlt, Nat.add_zero]
    have hmod : (n + 1) % volume c.window = b + 1 := by
      rw [← hsplit, Nat.add_assoc, Nat.mul_add_mod, Nat.mod_eq_of_lt hlt]
    have hle : n + 1 < volume c.vars := by
      have hblock : volume c.window * (a + 1) ≤ volume c.vars := by
        rw [hvol]
        exact Nat.mul_le_mul_left _ ha
      rw [Nat.mul_succ] at hblock
      omega
    refine .walking (n + 1) hle (hnew _ rfl rfl rfl) ?_ ?_ ?_ ?_ (hquiet _ rfl)
    · simp only [hlast, if_false, hdiv, hscan]
    · simp only [hmod, Nat.mod_eq_of_lt hlt]
    · simp only [hlast, if_false, hmod, Nat.add_one_ne_zero]
    · exact hflush

/-- A cycle without a start continues a run. -/
theorem tick (hc : ∀ v ∈ c.vars, v.Runs) (h : Reached c ticks s) (hi : i.start = false) :
    ∃ o next, s.tick c i = .ok (o, next) ∧ Reached c (ticks ++ [⟨s, i, o⟩]) next := by
  rcases h.counters hc with ⟨a, b, ha, hb, hpa, hpb⟩
  have htick := tick_eq hc ha hb hpa hpb hi
  cases h with
  | walking n hn hloads hscan hwindow hphase hflush hundone =>
      by_cases hload : s.loadsNow i = true
      · exact load hc hn hloads hscan hwindow hphase hflush hundone hi hload
      · -- Without a load nothing moves.
        have hload : s.loadsNow i = false := by simpa only [Bool.not_eq_true] using hload
        have hnot : ¬ s.phase = .flush := by
          intro hf
          rw [hf] at hphase
          split at hphase <;> exact absurd hphase (by decide)
        simp only [hload, hnot, decide_false, Bool.false_and, Bool.false_eq_true, if_false]
          at htick
        refine ⟨_, _, htick, .walking n hn ?_ hscan hwindow hphase hflush ?_⟩
        · rw [loads_append, loads_of_not_load rfl, List.append_nil, hloads]
        · intro t ht
          rcases List.mem_append.mp ht with ht | ht
          · exact hundone t ht
          · rw [List.mem_singleton.mp ht]
  | draining hloads hscan hwindow hphase hflush hundone =>
      have hload : s.loadsNow i = false := by simp [loadsNow, hphase]
      simp only [hload, Bool.false_and, Bool.false_eq_true, if_false, hphase, decide_true,
        Bool.true_and] at htick
      refine ⟨_, _, htick, ?_⟩
      have hkeep : ∀ o : LoopOutputs, o.load = false →
          loads (ticks ++ [⟨s, i, o⟩]) = positions c.vars := by
        intro o ho
        rw [loads_append, loads_of_not_load ho, List.append_nil, hloads]
      by_cases hdone : (decide (c.latency ≤ s.flush) && i.drained) = true
      · simp only [hdone, if_true]
        exact .rested (hkeep _ rfl) ⟨rfl, hscan, hwindow⟩
      · simp only [hdone, Bool.false_eq_true, if_false]
        refine .draining (hkeep _ rfl) hscan hwindow rfl ?_ ?_
        · have hone : ∀ o : LoopOutputs, flushes [⟨s, i, o⟩] = 1 := by
            intro o
            simp only [flushes, List.countP_cons, List.countP_nil, hphase, decide_true, if_true]
          simp only [flushes_append, hone]
          split <;> omega
        · intro t ht
          rcases List.mem_append.mp ht with ht | ht
          · exact hundone t ht
          · rw [List.mem_singleton.mp ht]
  | rested hloads hrested =>
      have hload : s.loadsNow i = false := by simp [loadsNow, hrested.1]
      simp only [hload, Bool.false_and, Bool.false_eq_true, if_false, hrested.1,
        reduceCtorEq, decide_false] at htick
      refine ⟨_, _, htick, .rested ?_ ⟨rfl, hrested.2.1, hrested.2.2⟩⟩
      rw [loads_append, loads_of_not_load rfl, List.append_nil, hloads]

/-- Once the controller has reported that it is done, it waits at its first
    position. -/
theorem rested_of_done (h : Reached c ticks s) (hdone : ∃ t ∈ ticks, t.outputs.done = true) :
    s.Rested c := by
  rcases hdone with ⟨t, ht, hd⟩
  cases h with
  | walking _ _ _ _ _ _ _ hundone => exact absurd (hundone t ht) (by simp [hd])
  | draining _ _ _ _ _ hundone => exact absurd (hundone t ht) (by simp [hd])
  | rested _ hrested => exact hrested

/-- The loads of a run are the first positions. -/
theorem loads_prefix (h : Reached c ticks s) : loads ticks <+: positions c.vars := by
  cases h with
  | walking n _ hloads => rw [hloads]; exact List.take_prefix n _
  | draining hloads => exact hloads ▸ List.prefix_rfl
  | rested hloads => exact hloads ▸ List.prefix_rfl

/-- A load has space, and one from the first phase has valid inputs. -/
theorem space_of_load (hc : ∀ v ∈ c.vars, v.Runs) (h : Reached c ticks s)
    (hi : i.start = false) {o : LoopOutputs} {next : LoopState}
    (htick : s.tick c i = .ok (o, next)) (hload : o.load = true) : i.space = true := by
  rcases h.counters hc with ⟨a, b, ha, hb, hpa, hpb⟩
  rw [tick_eq hc ha hb hpa hpb hi, Except.ok.injEq, Prod.mk.injEq] at htick
  rw [← htick.1] at hload
  simp only [loadsNow, Bool.or_eq_true, Bool.and_eq_true] at hload
  rcases hload with hload | hload
  · exact hload.2
  · exact hload.2

/-- The last load of a window is the one at its last position. -/
theorem last_iff (hc : ∀ v ∈ c.vars, v.Runs) (h : Reached c ticks s)
    (hi : i.start = false) {o : LoopOutputs} {next : LoopState}
    (htick : s.tick c i = .ok (o, next)) :
    o.last = true ↔
      o.load = true ∧ List.Forall₂ (fun v k => v.max = .ok k) c.window o.window := by
  rcases h.counters hc with ⟨a, b, ha, hb, hpa, hpb⟩
  have hvw : ∀ v ∈ c.window, v.Runs := fun v hv => hc v (List.mem_append_right _ hv)
  rw [tick_eq hc ha hb hpa hpb hi, Except.ok.injEq, Prod.mk.injEq] at htick
  rw [← htick.1]
  simp only [Bool.and_eq_true]
  rw [hpb, forall₂_of_allAtMax (length_position ..) (allAtMax_position hvw hb)]

/-- What the controller has seen when it reports that it is done. -/
theorem of_done (hc : ∀ v ∈ c.vars, v.Runs) (h : Reached c ticks s)
    (hi : i.start = false) {o : LoopOutputs} {next : LoopState}
    (htick : s.tick c i = .ok (o, next)) (hdone : o.done = true) :
    loads ticks = positions c.vars ∧ i.drained = true ∧ c.latency ≤ flushes ticks ∧
      ∀ t ∈ ticks, t.outputs.done = false := by
  rcases h.counters hc with ⟨a, b, ha, hb, hpa, hpb⟩
  rw [tick_eq hc ha hb hpa hpb hi, Except.ok.injEq, Prod.mk.injEq] at htick
  rw [← htick.1] at hdone
  simp only [Bool.and_eq_true, decide_eq_true_eq] at hdone
  rcases hdone with ⟨⟨hphase, hflush⟩, hdrained⟩
  cases h with
  | walking n _ _ _ _ hwalk =>
      rw [hphase] at hwalk
      split at hwalk <;> exact absurd hwalk (by decide)
  | draining hloads _ _ _ hcount hundone =>
      exact ⟨hloads, hdrained, Nat.le_trans hflush hcount, hundone⟩
  | rested _ hrested => exact absurd (hphase.symm.trans hrested.1) (by decide)

/-- A last load comes with valid inputs or from inside a window. -/
theorem inValid_or_rest_of_last (hc : ∀ v ∈ c.vars, v.Runs) (h : Reached c ticks s)
    (hi : i.start = false) {o : LoopOutputs} {next : LoopState}
    (htick : s.tick c i = .ok (o, next)) (hlast : o.last = true) :
    i.inValid = true ∨ s.phase = .rest := by
  rcases h.counters hc with ⟨a, b, ha, hb, hpa, hpb⟩
  rw [tick_eq hc ha hb hpa hpb hi, Except.ok.injEq, Prod.mk.injEq] at htick
  rw [← htick.1] at hlast
  simp only [loadsNow, Bool.and_eq_true, Bool.or_eq_true, decide_eq_true_eq] at hlast
  rcases hlast.1 with hfirst | hrest
  · exact .inl hfirst.1.2
  · exact .inr hrest.1

/-- The inside of a window is entered by a load that is not the last one, and
    only a last load leaves it. -/
theorem of_next_rest (hc : ∀ v ∈ c.vars, v.Runs) (h : Reached c ticks s)
    (hi : i.start = false) {o : LoopOutputs} {next : LoopState}
    (htick : s.tick c i = .ok (o, next)) (hnext : next.phase = .rest) :
    o.last = false ∧ (i.inValid = true ∨ s.phase = .rest) := by
  rcases h.counters hc with ⟨a, b, ha, hb, hpa, hpb⟩
  rw [tick_eq hc ha hb hpa hpb hi, Except.ok.injEq, Prod.mk.injEq] at htick
  rw [← htick.2] at hnext
  rw [← htick.1]
  -- Without a load nothing enters the inside of a window, it can only be stayed in.
  by_cases hload : s.loadsNow i = true
  · simp only [hload, if_true] at hnext
    by_cases hlast : b + 1 = volume c.window
    · rw [if_pos hlast] at hnext
      split at hnext <;> exact absurd hnext (by decide)
    · refine ⟨by simp only [hlast, decide_false, Bool.and_false], ?_⟩
      simp only [loadsNow, Bool.or_eq_true, Bool.and_eq_true, decide_eq_true_eq] at hload
      rcases hload with hload | hload
      · exact .inl hload.1.2
      · exact .inr hload.1
  · simp only [hload, Bool.false_eq_true, if_false] at hnext
    refine ⟨by simp only [hload, Bool.false_and], .inr ?_⟩
    split at hnext
    · exact absurd hnext (by decide)
    · exact hnext

/-- Any number of cycles without a start continue a run, and what was reached
    before each of them is a run as well. -/
theorem trace (hc : ∀ v ∈ c.vars, v.Runs) (h : Reached c ticks s) (inputs : List LoopInputs)
    (hi : ∀ i ∈ inputs, i.start = false) :
    ∃ more final, s.trace c inputs = .ok (more, final) ∧ Reached c (ticks ++ more) final ∧
      ∀ pre t post, more = pre ++ t :: post → Reached c (ticks ++ pre) t.before ∧
        t.inputs.start = false ∧ ∃ next, t.before.tick c t.inputs = .ok (t.outputs, next) := by
  induction inputs generalizing ticks s with
  | nil =>
      refine ⟨[], s, rfl, by rwa [List.append_nil], fun pre t post hsplit => ?_⟩
      exact absurd hsplit (by simp)
  | cons i rest ih =>
      have hstart : i.start = false := hi i (List.mem_cons_self ..)
      rcases h.tick hc hstart with ⟨o, next, htick, hnext⟩
      rcases ih hnext fun j hj => hi j (List.mem_cons_of_mem i hj) with
        ⟨more, final, htrace, hfinal, hsplits⟩
      refine ⟨⟨s, i, o⟩ :: more, final, ?_, ?_, fun pre t post hsplit => ?_⟩
      · exact trace_cons_ok.mpr ⟨o, next, more, htick, htrace, rfl⟩
      · simpa only [List.append_assoc, List.singleton_append] using hfinal
      -- The cycle that is singled out is the first one or one of the rest.
      · cases pre with
        | nil =>
            rw [List.nil_append, List.cons.injEq] at hsplit
            rw [← hsplit.1, List.append_nil]
            exact ⟨h, hstart, next, htick⟩
        | cons p pre =>
            rw [List.cons_append, List.cons.injEq] at hsplit
            rcases hsplits pre t post hsplit.2 with ⟨hreached, hrest⟩
            rw [← hsplit.1]
            exact ⟨by simpa only [List.append_assoc, List.singleton_append] using hreached, hrest⟩

/-- If the inputs stay valid until a last load, they are valid at it. Inside a
    window this is known from the cycle before. -/
theorem inValid_of_last (hc : ∀ v ∈ c.vars, v.Runs) (h : Reached c ticks s)
    (inputs : List LoopInputs) (hi : ∀ i ∈ inputs, i.start = false)
    {more : List LoopTick} {final : LoopState} (htrace : s.trace c inputs = .ok (more, final))
    (hheld : s.phase = .rest → ∀ t ∈ more.head?, t.inputs.inValid = true)
    (hstable : more.IsChain fun t u =>
      t.inputs.inValid = true → t.outputs.last = false → u.inputs.inValid = true) :
    ∀ t ∈ more, t.outputs.last = true → t.inputs.inValid = true := by
  induction inputs generalizing ticks s more with
  | nil =>
      rcases Except.ok.inj htrace with ⟨⟩
      intro t ht
      exact absurd ht (List.not_mem_nil)
  | cons i rest ih =>
      have hstart : i.start = false := hi i (List.mem_cons_self ..)
      rcases h.tick hc hstart with ⟨o, next, htick, hnext⟩
      rcases trace_cons_ok.mp htrace with ⟨o', next', tail, htick', htail, rfl⟩
      rcases Except.ok.inj (htick.symm.trans htick') with ⟨⟩
      -- Within a window the input has been valid in the cycle before and is held.
      have hvalid : i.inValid = true ∨ s.phase = .rest → i.inValid = true := by
        intro hor
        rcases hor with hnow | hrest
        · exact hnow
        · exact hheld hrest _ rfl
      intro t ht hlast
      rcases List.mem_cons.mp ht with rfl | ht
      · exact hvalid (h.inValid_or_rest_of_last hc hstart htick hlast)
      · refine ih hnext (fun j hj => hi j (List.mem_cons_of_mem i hj)) htail ?_
          hstable.tail t ht hlast
        intro hrest u hu
        rcases h.of_next_rest hc hstart htick hrest with ⟨hnot, hor⟩
        exact List.IsChain.rel_head? hstable hu (hvalid hor) hnot

end Reached

/-- What holds of the cycles behind a start and of the state they end in,
    whatever the controller was told in them. -/
structure LoopRun (c : LoopControl) (ticks : List LoopTick) (final : LoopState) : Prop where
  /-- The loads carry the positions in order. -/
  loads_prefix : loads ticks <+: positions c.vars
  /-- There are no more loads than positions. -/
  loads_length : (loads ticks).length ≤ (c.vars.map LoopVar.extent).prod
  /-- The last load of a window is the one at its last position. -/
  last_iff : ∀ t ∈ ticks, t.outputs.last = true ↔
    t.outputs.load = true ∧ List.Forall₂ (fun v k => v.max = .ok k) c.window t.outputs.window
  /-- There is space at every load. -/
  space_of_load : ∀ t ∈ ticks, t.outputs.load = true → t.inputs.space = true
  /-- Inputs that stay valid until a last load are valid at it. -/
  inValid_of_last :
    (ticks.IsChain fun t u =>
      t.inputs.inValid = true → t.outputs.last = false → u.inputs.inValid = true) →
    ∀ t ∈ ticks, t.outputs.last = true → t.inputs.inValid = true
  /-- The controller is done once, with everything loaded and drained, after
      flushing for its latency. -/
  done : ∀ pre t post, ticks = pre ++ t :: post → t.outputs.done = true →
    loads pre = positions c.vars ∧ t.inputs.drained = true ∧ c.latency ≤ flushes pre ∧
      ∀ u ∈ pre ++ post, u.outputs.done = false
  /-- From then on it waits at its first position. -/
  rested : ∀ pre t post, ticks = pre ++ t :: post → t.outputs.done = true →
    final.Rested c ∧ ∀ u ∈ post, u.before.Rested c
  /-- The next start finds it as the reset left it. -/
  again : (∃ t ∈ ticks, t.outputs.done = true) → ∀ i rest, i.start = true →
    (final.trace c (i :: rest)).map (fun r => r.1.map LoopTick.outputs)
      = ((initial c).trace c (i :: rest)).map (fun r => r.1.map LoopTick.outputs)

/-- The cycles behind a start do not depend on where an idle controller stood. -/
theorem trace_start {c : LoopControl} (hc : ∀ v ∈ c.vars, v.Runs) {s : LoopState}
    {i : LoopInputs} (hs : s.phase = .idle) (hi : i.start = true) (rest : List LoopInputs) :
    s.trace c (i :: rest)
      = Except.map (fun r => (⟨s, i, ⟨false, false, false, s.scan, s.window⟩⟩ :: r.1, r.2))
          (({ initial c with phase := .first } : LoopState).trace c rest) := by
  simp only [LoopState.trace, tick_start hc hs hi, bind, Except.bind, pure, Except.pure]
  rfl

/-- The start leaves the controller at its first position with nothing loaded. -/
theorem reached_start {c : LoopControl} (hc : ∀ v ∈ c.vars, v.Runs) :
    Reached c [] { initial c with phase := .first } := by
  refine .walking 0 (volume_pos fun v hv => (hc v hv).1) rfl ?_ ?_ ?_ rfl ?_
  · rw [Nat.zero_div, position_zero]
    rfl
  · rw [Nat.zero_mod, position_zero]
    rfl
  · rw [Nat.zero_mod, if_pos rfl]
  · intro t ht
    exact absurd ht List.not_mem_nil

/-- From an idle controller, a start and any cycles without one load each
    position once and in order, and end where the next start repeats them. -/
theorem trace_loopRun (c : LoopControl) (hc : ∀ v ∈ c.vars, v.Runs) (s : LoopState)
    (hs : s.phase = .idle) (i : LoopInputs) (hi : i.start = true) (rest : List LoopInputs)
    (hrest : ∀ j ∈ rest, j.start = false) :
    ∃ t ticks final, s.trace c (i :: rest) = .ok (t :: ticks, final) ∧
      ticks.map LoopTick.inputs = rest ∧ t.outputs.load = false ∧ t.outputs.last = false ∧
      t.outputs.done = false ∧ LoopRun c ticks final := by
  have hreached := reached_start hc
  rcases hreached.trace hc rest hrest with ⟨ticks, final, htrace, hfinal, hsplits⟩
  rw [List.nil_append] at hfinal
  simp only [List.nil_append] at hsplits
  have hat : ∀ t ∈ ticks, ∃ pre, Reached c pre t.before ∧ t.inputs.start = false ∧
      ∃ next, t.before.tick c t.inputs = .ok (t.outputs, next) := by
    intro t ht
    rcases List.mem_iff_append.mp ht with ⟨pre, post, hsplit⟩
    exact ⟨pre, hsplits pre t post hsplit⟩
  refine ⟨⟨s, i, ⟨false, false, false, s.scan, s.window⟩⟩, ticks, final, ?_,
    inputs_trace htrace, rfl, rfl, rfl, ?_⟩
  · rw [trace_start hc hs hi, htrace]
    rfl
  constructor
  case loads_prefix => exact hfinal.loads_prefix
  case loads_length =>
    have hle := hfinal.loads_prefix.length_le
    rwa [length_positions] at hle
  case last_iff =>
    intro t ht
    rcases hat t ht with ⟨pre, hpre, hstart, next, htick⟩
    exact hpre.last_iff hc hstart htick
  case space_of_load =>
    intro t ht
    rcases hat t ht with ⟨pre, hpre, hstart, next, htick⟩
    exact hpre.space_of_load hc hstart htick
  case inValid_of_last =>
    intro hstable
    refine hreached.inValid_of_last hc rest hrest htrace (fun hphase => ?_) hstable
    exact absurd hphase (show ¬ LoopPhase.first = .rest by decide)
  case done =>
    intro pre t post hsplit hdone
    rcases hsplits pre t post hsplit with ⟨hpre, hstart, next, htick⟩
    rcases hpre.of_done hc hstart htick hdone with ⟨hloads, hdrained, hflush, hundone⟩
    refine ⟨hloads, hdrained, hflush, fun u hu => ?_⟩
    rcases List.mem_append.mp hu with hu | hu
    · exact hundone u hu
    · -- A later report would have this one before it.
      rcases List.mem_iff_append.mp hu with ⟨mid, post', hpost⟩
      have hlater : ticks = (pre ++ t :: mid) ++ u :: post' := by
        rw [hsplit, hpost, List.append_assoc, List.cons_append]
      rcases hsplits _ u post' hlater with ⟨hu', hustart, unext, hutick⟩
      by_contra htrue
      have htrue : u.outputs.done = true := by simpa only [Bool.not_eq_false] using htrue
      have hold := (hu'.of_done hc hustart hutick htrue).2.2.2 t
        (List.mem_append_right _ (List.mem_cons_self ..))
      exact absurd (hold.symm.trans hdone) Bool.false_ne_true
  case rested =>
    intro pre t post hsplit hdone
    refine ⟨hfinal.rested_of_done ⟨t, ?_, hdone⟩, fun u hu => ?_⟩
    · rw [hsplit]
      exact List.mem_append_right _ (List.mem_cons_self ..)
    · rcases List.mem_iff_append.mp hu with ⟨mid, post', hpost⟩
      have hlater : ticks = (pre ++ t :: mid) ++ u :: post' := by
        rw [hsplit, hpost, List.append_assoc, List.cons_append]
      exact (hsplits _ u post' hlater).1.rested_of_done
        ⟨t, List.mem_append_right _ (List.mem_cons_self ..), hdone⟩
  case again =>
    intro hdone j later hj
    rcases hfinal.rested_of_done hdone with ⟨hidle, hscan, hwindow⟩
    rw [trace_start hc hidle hj, trace_start hc rfl hj, hscan, hwindow]
    cases ({ initial c with phase := .first } : LoopState).trace c later with
    | error f => rfl
    | ok r => rfl

/-- A loop over an image row of four and a window of two by three, held back once
    and restarted. -/
theorem trace_loopRun_two_nests :
    let c : LoopControl := ⟨[⟨"x", 0, 4⟩], [⟨"i", 1, 2⟩, ⟨"j", 0, 3⟩], 2⟩
    let inputs : List LoopInputs := ⟨false, true, false, false⟩ ::
      List.replicate 28 ⟨false, true, true, true⟩
    (∀ v ∈ c.vars, v.Runs) ∧ (initial c).phase = .idle ∧ (∀ j ∈ inputs, j.start = false) ∧
      ∃ t ticks final, (initial c).trace c (⟨true, false, false, false⟩ :: inputs)
          = .ok (t :: ticks, final) ∧
        ticks.map LoopTick.inputs = inputs ∧ t.outputs.load = false ∧ t.outputs.last = false ∧
        t.outputs.done = false ∧ LoopRun c ticks final := by
  intro c inputs
  have hc : ∀ v ∈ c.vars, v.Runs := by
    intro v hv
    rcases List.mem_cons.mp hv with rfl | hv
    · exact ⟨by decide, 3, rfl⟩
    rcases List.mem_cons.mp hv with rfl | hv
    · exact ⟨by decide, 2, rfl⟩
    rcases List.mem_cons.mp hv with rfl | hv
    · exact ⟨by decide, 2, rfl⟩
    · exact absurd hv List.not_mem_nil
  have hstart : ∀ j ∈ inputs, j.start = false := by decide
  exact ⟨hc, rfl, hstart, trace_loopRun c hc (initial c) rfl _ rfl inputs hstart⟩

end StencilRtl
