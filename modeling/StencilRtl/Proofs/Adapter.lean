import Mathlib.Algebra.BigOperators.Group.List.Lemmas
import StencilRtl.Proofs.Rtl.Making
import StencilRtl.Proofs.Rtl.Traces
import StencilRtl.Proofs.Scan.Frames
import StencilRtl.Proofs.Sharing.Recipes

/-!
# Adapters Pass Whole Frames

What an adapter does with the windows it takes, cycle by cycle.

Between its two sides an adapter has one register. A window is taken only if the register is
empty or is emptied in the same cycle, so what has been taken is what has been handed over
and then what is in the register. Whatever happens on either side, no window is lost and
none is seen twice.

The counters move with the windows that are taken and with nothing else. Neither a start nor
the end of a frame sets them back, so after any number of windows they are where a scan is
that has begun over and over, and a window is the last one of its frame just if the number of
windows up to it is a multiple of those in a frame. An inward adapter is done with a frame
when it takes such a window. An outward one notes that the window is the last one where it
puts the window down, and is done when it hands the window over.

## Main definitions

* `Adapter.Handshake.accepted`, `Adapter.Handshake.delivered`: What has been taken and handed
  over.
* `Adapter.HasLogic`: A module has the logic of an adapter.
* `Adapter.Passes`: All that holds of an adapter.

## Theorems

* `Adapter.body_ok`, `Adapter.make_ok`: The logic is there if it could be built.
* `Adapter.HasLogic.accepted_eq`: What is taken is handed over or in the register.
* `Adapter.HasLogic.held_eq`: The counters count the windows that are taken.
* `Adapter.HasLogic.mark_iff`: The mark of an outward adapter tells the last windows.
* `Adapter.HasLogic.stays_stopped`: A stopped adapter takes nothing until it is started.
* `Adapter.make_returns`: An adapter can be made if the bits of a window can be counted.
* `Adapter.make_passes`: An adapter that could be made passes whole frames.
-/

namespace StencilRtl

namespace Adapter

open Rtl

/-- The values of a signal in those of the first `t` cycles after the reset in which
    something holds. -/
def seen (P : State → Prop) [DecidablePred P] (signal : String) (τ : Nat → State) (t : Nat) :
    List Nat :=
  ((List.range t).filter fun k => P (τ (k + 1))).map fun k => (τ (k + 1)).value signal

theorem seen_succ (P : State → Prop) [DecidablePred P] (signal : String) (τ : Nat → State)
    (t : Nat) : seen P signal τ (t + 1)
      = seen P signal τ t ++ if P (τ (t + 1)) then [(τ (t + 1)).value signal] else [] := by
  simpa only [seen, decide_eq_true_eq] using filter_map_range_succ
    (fun k => decide (P (τ (k + 1)))) (fun k => (τ (k + 1)).value signal) t

namespace Handshake

variable (h : Handshake)

/-- A window is taken. -/
def Accepts (s : State) : Prop := s.value h.inValid = 1 ∧ s.value h.inReady = 1

/-- A window is handed over. -/
def Delivers (s : State) : Prop := s.value h.outValid = 1 ∧ s.value h.outReady = 1

instance : DecidablePred h.Accepts := fun _ => inferInstanceAs (Decidable (_ ∧ _))

instance : DecidablePred h.Delivers := fun _ => inferInstanceAs (Decidable (_ ∧ _))

/-- The windows that have been taken in the first `t` cycles after the reset. -/
def accepted (τ : Nat → State) (t : Nat) : List Nat := seen h.Accepts h.inData τ t

/-- The windows that have been handed over. -/
def delivered (τ : Nat → State) (t : Nat) : List Nat := seen h.Delivers h.outData τ t

theorem length_accepted_succ (τ : Nat → State) (t : Nat) : (h.accepted τ (t + 1)).length
    = (h.accepted τ t).length + if h.Accepts (τ (t + 1)) then 1 else 0 := by
  rw [accepted, seen_succ, List.length_append, accepted]
  split
  · rw [List.length_singleton]
  · rw [List.length_nil]

theorem length_delivered_succ (τ : Nat → State) (t : Nat) : (h.delivered τ (t + 1)).length
    = (h.delivered τ t).length + if h.Delivers (τ (t + 1)) then 1 else 0 := by
  rw [delivered, seen_succ, List.length_append, delivered]
  split
  · rw [List.length_singleton]
  · rw [List.length_nil]

end Handshake

/-- A module has the signals of an adapter. -/
structure HasPorts (side : AdapterSide) (width : Nat) (m : Module) : Prop where
  clear : (reset, 1) ∈ m.signals
  start : (startPort, 1) ∈ m.signals
  finish : (donePort, 1) ∈ m.signals
  inData : ((handshake side).inData, width) ∈ m.signals
  inValid : ((handshake side).inValid, 1) ∈ m.signals
  inReady : ((handshake side).inReady, 1) ∈ m.signals
  outData : ((handshake side).outData, width) ∈ m.signals
  outValid : ((handshake side).outValid, 1) ∈ m.signals
  outReady : ((handshake side).outReady, 1) ∈ m.signals
  mark : side = .outward → ("data_out_TLAST", 1) ∈ m.signals

/-- The module of an adapter has its signals. -/
theorem ports_ok {side : AdapterSide} {inner : Shape} (hkind : inner.kind = .stream)
    {c : Component} (hports : c.ports = (Component.adapterOf inner side).ports) {m : Module}
    (h : c.modulePorts = .ok m.ports) : HasPorts side (inner.extents.prod * inner.elem.bits) m := by
  have hlines : inner.lines = [⟨"_value", inner.extents.prod * inner.elem.bits, false⟩,
      ⟨"_valid", 1, false⟩, ⟨"_ready", 1, true⟩] := by
    rw [Shape.lines, hkind]
  have hline : ∀ name shape direction, (name, shape, direction) ∈ c.ports → ∀ l ∈ shape.lines,
      (name ++ l.ending, l.width) ∈ m.signals :=
    fun name shape direction hport l hl => Component.line_of_modulePorts h hport hl
  have hclear := Component.reset_of_modulePorts h
  rw [hports] at hline
  -- The sides differ in which port is the bus, and only the outer bus marks the last word.
  cases side with
  | inward =>
      have hbus := hline "data_in" (inner.withKind .busStream) .input
        (by simp [Component.adapterOf, Component.ports])
      have hstream := hline "data_out" inner .output (by simp [Component.adapterOf, Component.ports])
      have hstart := hline startPort .bit .input (by simp [Component.adapterOf, Component.ports])
      have hdone := hline donePort .bit .output (by simp [Component.adapterOf, Component.ports])
      rw [hlines] at hstream
      exact ⟨hclear, hstart ⟨"", 1, false⟩ (by decide), hdone ⟨"", 1, false⟩ (by decide),
        hbus ⟨"_TDATA", _, false⟩ (List.mem_of_getElem? (i := 0) rfl),
        hbus ⟨"_TVALID", 1, false⟩ (List.mem_of_getElem? (i := 1) rfl),
        hbus ⟨"_TREADY", 1, true⟩ (List.mem_of_getElem? (i := 2) rfl),
        hstream _ (List.mem_of_getElem? (i := 0) rfl),
        hstream _ (List.mem_of_getElem? (i := 1) rfl),
        hstream _ (List.mem_of_getElem? (i := 2) rfl), fun hside => absurd hside AdapterSide.noConfusion⟩
  | outward =>
      have hbus := hline "data_out" (inner.withKind .busStream) .output
        (by simp [Component.adapterOf, Component.ports])
      have hstream := hline "data_in" inner .input (by simp [Component.adapterOf, Component.ports])
      have hstart := hline startPort .bit .input (by simp [Component.adapterOf, Component.ports])
      have hdone := hline donePort .bit .output (by simp [Component.adapterOf, Component.ports])
      rw [hlines] at hstream
      exact ⟨hclear, hstart ⟨"", 1, false⟩ (by decide), hdone ⟨"", 1, false⟩ (by decide),
        hstream _ (List.mem_of_getElem? (i := 0) rfl),
        hstream _ (List.mem_of_getElem? (i := 1) rfl),
        hstream _ (List.mem_of_getElem? (i := 2) rfl),
        hbus ⟨"_TDATA", _, false⟩ (List.mem_of_getElem? (i := 0) rfl),
        hbus ⟨"_TVALID", 1, false⟩ (List.mem_of_getElem? (i := 1) rfl),
        hbus ⟨"_TREADY", 1, true⟩ (List.mem_of_getElem? (i := 2) rfl),
        fun _ => hbus ⟨"_TLAST", 1, false⟩ (List.mem_of_getElem? (i := 3) rfl)⟩

/-- A module has the logic of an adapter. -/
structure HasLogic (side : AdapterSide) (counters : List ScanCounter) (width : Nat)
    (m : Module) : Prop where
  started : ("started", 1) ∈ m.signals
  data : ("r_value", width) ∈ m.signals
  valid : ("r_valid", 1) ∈ m.signals
  accept : ("accept", 1) ∈ m.signals
  done : ("done", 1) ∈ m.signals
  declared : ∀ c ∈ counters, (c.register, c.width) ∈ m.signals
  accepts : .assign (.ref "accept")
    (.and (canTake (handshake side)) (.ref (handshake side).inValid)) ∈ m.body
  ready : .assign (.ref (handshake side).inReady) (canTake (handshake side)) ∈ m.body
  finishes : .assign (.ref "done")
    (Adapter.done side (handshake side) (ScanCounter.allAtLast counters)) ∈ m.body
  reports : .assign (.ref donePort) (.ref "done") ∈ m.body
  value : .assign (.ref (handshake side).outData) (.ref "r_value") ∈ m.body
  offers : .assign (.ref (handshake side).outValid) (.ref "r_valid") ∈ m.body
  starts : ∃ items, Body.register "started" (.number 0)
    [(.ref startPort, .bit true), (.ref "done", .bit false)] = .ok items ∧ ∀ i ∈ items, i ∈ m.body
  load : ∃ items, Body.enabled (.ref "r_value") (.ref "accept") (.ref (handshake side).inData)
    = .ok items ∧ ∀ i ∈ items, i ∈ m.body
  validity : ∃ items, Body.register "r_valid" (.number 0)
    [(.ref "accept", .bit true), (.ref (handshake side).outReady, .bit false)] = .ok items
      ∧ ∀ i ∈ items, i ∈ m.body
  counts : ∀ move ∈ ScanCounter.moves [.ref "accept"] counters,
    ∃ items, Body.register move.1.register (.number 0) [(move.2, move.1.next)] = .ok items
      ∧ ∀ i ∈ items, i ∈ m.body
  marked : side = .outward → ("r_last", 1) ∈ m.signals
    ∧ .assign (.ref "data_out_TLAST") (.ref "r_last") ∈ m.body
    ∧ ∃ items, Body.register "r_last" (.number 0) [(.ref "accept", ScanCounter.allAtLast counters)]
        = .ok items ∧ ∀ i ∈ items, i ∈ m.body

/-- The logic is there if it could be built. -/
theorem body_ok {side : AdapterSide} {counters : List ScanCounter} {width : Nat} {m : Module}
    (h : body side counters width = .ok m.body) : HasLogic side counters width m := by
  have hall : ∀ i ∈ m.body, i ∈ m.body := fun i hi => hi
  have haccept := Body.join_net h (List.mem_of_getElem? (i := 4) rfl)
  have hdone := Body.join_net h (List.mem_of_getElem? (i := 7) rfl)
  -- The parts of each counter are two levels down.
  have hcounter : ∀ move ∈ ScanCounter.moves [.ref "accept"] counters,
      .reg move.1.register move.1.width ∈ m.body ∧ ∃ items, Body.register move.1.register (.number 0)
        [(move.2, move.1.next)] = .ok items ∧ ∀ i ∈ items, i ∈ m.body := by
    intro move hmove
    rcases Body.join_part h hall (List.mem_of_getElem? (i := 6) rfl) with ⟨all, hparts, hsub⟩
    rcases Body.join_part hparts hsub (List.mem_map_of_mem hmove) with ⟨own, hown, hsub'⟩
    exact ⟨hsub' _ (Body.join_reg hown (List.mem_cons_self ..)),
      Body.join_part hown hsub' (List.mem_of_getElem? (i := 1) rfl)⟩
  exact {
    started := Module.signals_of_reg (Body.join_reg h (List.mem_of_getElem? (i := 0) rfl))
    data := Module.signals_of_reg (Body.join_reg h (List.mem_of_getElem? (i := 1) rfl))
    valid := Module.signals_of_reg (Body.join_reg h (List.mem_of_getElem? (i := 2) rfl))
    accept := Module.signals_of_wire haccept.1
    done := Module.signals_of_wire hdone.1
    declared := fun c hc => by
      rw [← ScanCounter.map_fst_moves [.ref "accept"] counters] at hc
      rcases List.mem_map.mp hc with ⟨move, hmove, rfl⟩
      exact Module.signals_of_reg (hcounter move hmove).1
    accepts := haccept.2
    ready := Body.join_assign h (List.mem_of_getElem? (i := 5) rfl)
    finishes := hdone.2
    reports := Body.join_assign h (List.mem_of_getElem? (i := 8) rfl)
    value := Body.join_assign h (List.mem_of_getElem? (i := 13) rfl)
    offers := Body.join_assign h (List.mem_of_getElem? (i := 14) rfl)
    starts := Body.join_part h hall (List.mem_of_getElem? (i := 9) rfl)
    load := Body.join_part h hall (List.mem_of_getElem? (i := 10) rfl)
    validity := Body.join_part h hall (List.mem_of_getElem? (i := 11) rfl)
    counts := fun move hmove => (hcounter move hmove).2
    marked := fun hside => by
      subst hside
      exact ⟨Module.signals_of_reg (Body.join_reg h (List.mem_of_getElem? (i := 3) rfl)),
        Body.join_assign h (List.mem_of_getElem? (i := 15) rfl),
        Body.join_part h hall (List.mem_of_getElem? (i := 12) rfl)⟩ }

/-- A constant bit in a register of one bit. -/
theorem assigned_bit {Γ : Typing} {s : State} (b : Bool) :
    (Expr.bit b).assigned Γ s 1 = if b then 1 else 0 := by
  rw [Expr.bit, Expr.assigned, Expr.isSigned, Expr.value, Expr.extend_false]
  cases b <;> rfl

/-- A number ends a group of `n` if it is the last residue. -/
theorem mod_succ_eq_iff {n : Nat} (hn : 0 < n) (k : Nat) : k % n + 1 = n ↔ n ∣ k + 1 := by
  have hlt : k % n < n := Nat.mod_lt k hn
  have hdigits := Scan.succ_digits (k := k) hn
  rw [Nat.dvd_iff_mod_eq_zero]
  by_cases hlast : k % n = n - 1
  · rw [if_pos hlast] at hdigits
    omega
  · rw [if_neg hlast] at hdigits
    omega

namespace HasLogic

variable {side : AdapterSide} {counters : List ScanCounter} {width : Nat} {s : Shape}
  {library : String → Option Module} {m : Module} {Γ : Typing} {τ : Nat → State}

section

variable (hlogic : HasLogic side counters width m) (hports : HasPorts side width m)
  (h : m.Runs library Γ τ)

include hlogic hports h

/-- A window can be taken by an adapter that is started, if the register is empty or
    emptied. -/
theorem canTake_isBit (t : Nat) : (canTake (handshake side)).IsBit Γ (τ t)
    ((τ t).value "started" = 1 ∧
      ((τ t).value (handshake side).outReady = 1 ∨ ¬(τ t).value "r_valid" = 1)) :=
  (h.isBit hlogic.started t).and
    ((h.isBit hports.outReady t).or (h.isBit hlogic.valid t).not)

theorem accepts_iff (t : Nat) : (handshake side).Accepts (τ t) ↔
    (τ t).value (handshake side).inValid = 1 ∧ (τ t).value "started" = 1 ∧
      ((τ t).value (handshake side).outReady = 1 ∨ ¬(τ t).value "r_valid" = 1) := by
  have hready := h.bit_iff hports.inReady hlogic.ready (hlogic.canTake_isBit hports h t)
  rw [Handshake.Accepts, hready]

/-- The windows that are taken are those that are accepted. -/
theorem accept_iff (t : Nat) : (τ t).value "accept" = 1 ↔ (handshake side).Accepts (τ t) := by
  have haccept := h.bit_iff hlogic.accept hlogic.accepts
    ((hlogic.canTake_isBit hports h t).and (h.isBit hports.inValid t))
  rw [haccept, hlogic.accepts_iff hports h, and_comm]

theorem accept_own (t : Nat) :
    (Expr.ref "accept").own Γ (τ t) ≠ 0 ↔ (handshake side).Accepts (τ t) :=
  (h.isBit hlogic.accept t).own_ne_zero.trans (hlogic.accept_iff hports h t)

/-- A window is handed over from the register. -/
theorem delivers_iff (t : Nat) : (handshake side).Delivers (τ t) ↔
    (τ t).value "r_valid" = 1 ∧ (τ t).value (handshake side).outReady = 1 := by
  have hoffered := h.bit_iff hports.outValid hlogic.offers (h.isBit hlogic.valid t)
  rw [Handshake.Delivers, hoffered]

theorem outData_eq (t : Nat) : (τ t).value (handshake side).outData = (τ t).value "r_value" := by
  rw [h.assigned hlogic.value, h.width_eq hports.outData]
  exact Expr.assigned_ref (h.value_lt hlogic.data t)

/-- A window that is accepted goes to the register. -/
theorem value_next (t : Nat) : (τ (t + 1)).value "r_value"
    = if (handshake side).Accepts (τ t) then (τ t).value (handshake side).inData
      else (τ t).value "r_value" := by
  rcases hlogic.load with ⟨items, hitems, hsub⟩
  rw [h.enabled_next hitems hsub, State.firstHolding, State.firstHolding, h.width_eq hlogic.data,
    Expr.assigned_ref (h.value_lt hports.inData t)]
  exact if_congr (hlogic.accept_own hports h t) rfl rfl

theorem finish_iff (t : Nat) : (τ t).value donePort = 1 ↔ (τ t).value "done" = 1 :=
  h.bit_iff hports.finish hlogic.reports (h.isBit hlogic.done t)

section

variable (hreset : FromReset τ)

include hreset

/-- After the reset the register is empty. -/
theorem valid_first : (τ 1).value "r_valid" = 0 := by
  rcases hlogic.validity with ⟨items, hitems, hsub⟩
  rw [h.register_first hreset hports.clear hitems hsub, Expr.assigned_zero]

/-- It is filled by a window that is accepted, and otherwise emptied if it can be. -/
theorem valid_next (t : Nat) : (τ (t + 1 + 1)).value "r_valid"
    = if (handshake side).Accepts (τ (t + 1)) then 1
      else if (τ (t + 1)).value (handshake side).outReady = 1 then 0
      else (τ (t + 1)).value "r_valid" := by
  rcases hlogic.validity with ⟨items, hitems, hsub⟩
  rw [h.register_later hreset hports.clear hitems hsub, State.firstHolding, State.firstHolding,
    State.firstHolding, h.width_eq hlogic.valid, assigned_bit, assigned_bit]
  exact if_congr (hlogic.accept_own hports h (t + 1)) rfl
    (if_congr (h.isBit hports.outReady (t + 1)).own_ne_zero rfl rfl)

theorem started_next (t : Nat) : (τ (t + 1 + 1)).value "started"
    = if (τ (t + 1)).value startPort = 1 then 1
      else if (τ (t + 1)).value "done" = 1 then 0 else (τ (t + 1)).value "started" := by
  rcases hlogic.starts with ⟨items, hitems, hsub⟩
  rw [h.register_later hreset hports.clear hitems hsub, State.firstHolding, State.firstHolding,
    State.firstHolding, h.width_eq hlogic.started, assigned_bit, assigned_bit]
  exact if_congr (h.isBit hports.start (t + 1)).own_ne_zero rfl
    (if_congr (h.isBit hlogic.done (t + 1)).own_ne_zero rfl rfl)

/-- What has been accepted has been handed over or is in the register, in this order. -/
theorem accepted_eq (t : Nat) : (handshake side).accepted τ t = (handshake side).delivered τ t
    ++ if (τ (t + 1)).value "r_valid" = 1 then [(τ (t + 1)).value "r_value"] else [] := by
  induction t with
  | zero =>
      rw [hlogic.valid_first hports h hreset, if_neg (by decide)]
      rfl
  | succ t ih =>
      have haccepts := hlogic.accepts_iff hports h (t + 1)
      have hdelivered : (handshake side).delivered τ (t + 1) = (handshake side).delivered τ t
          ++ if (τ (t + 1)).value "r_valid" = 1 ∧ (τ (t + 1)).value (handshake side).outReady = 1
            then [(τ (t + 1)).value "r_value"] else [] := by
        rw [Handshake.delivered, seen_succ, hlogic.outData_eq hports h]
        exact congrArg _ (if_congr (hlogic.delivers_iff hports h (t + 1)) rfl rfl)
      rw [hdelivered, Handshake.accepted, seen_succ, ← Handshake.accepted, ih,
        hlogic.valid_next hports h hreset, hlogic.value_next hports h (t + 1)]
      by_cases haccept : (handshake side).Accepts (τ (t + 1))
      · -- The register is empty or emptied, so the new window follows the one in it.
        have hgone : (τ (t + 1)).value "r_valid" = 1 →
            (τ (t + 1)).value (handshake side).outReady = 1 := fun hvalid =>
          (haccepts.mp haccept).2.2.resolve_right (not_not_intro hvalid)
        rw [if_pos haccept, if_pos haccept, if_pos haccept, if_pos rfl,
          if_congr (and_iff_left_of_imp hgone) rfl rfl]
      · rw [if_neg haccept, if_neg haccept, if_neg haccept, List.append_nil, List.append_assoc]
        refine congrArg _ ?_
        by_cases hready : (τ (t + 1)).value (handshake side).outReady = 1
        · rw [if_pos hready, if_neg (by decide : ¬0 = 1), List.append_nil]
          exact if_congr (and_iff_left hready).symm rfl rfl
        · have hkept : ¬((τ (t + 1)).value "r_valid" = 1 ∧
              (τ (t + 1)).value (handshake side).outReady = 1) := fun hc => hready hc.2
          rw [if_neg hready, if_neg hkept, List.nil_append]

/-- With a window in the register one more has been accepted than handed over. -/
theorem length_delivered (t : Nat) (hvalid : (τ (t + 1)).value "r_valid" = 1) :
    ((handshake side).delivered τ t).length + 1 = ((handshake side).accepted τ t).length := by
  rw [hlogic.accepted_eq hports h hreset t, if_pos hvalid, List.length_append, List.length_singleton]

/-- An adapter that is stopped takes nothing until the cycle after it is started. -/
theorem stays_stopped {t : Nat} (hdone : (τ (t + 1)).value donePort = 1) (d : Nat)
    (hquiet : ∀ k ≤ d, (τ (t + 1 + k)).value startPort ≠ 1) :
    ¬(handshake side).Accepts (τ (t + 1 + d + 1)) := by
  -- It stopped as it was done, and only the start signal sets it going again.
  have hstopped : (τ (t + 1 + d + 1)).value "started" = 0 := by
    induction d with
    | zero =>
        have hfinish := (hlogic.finish_iff hports h (t + 1)).mp hdone
        rw [hlogic.started_next hports h hreset t, if_neg (hquiet 0 (Nat.le_refl 0)), if_pos hfinish]
    | succ d ih =>
        have hbefore := ih fun k hk => hquiet k (Nat.le_succ_of_le hk)
        have hstart : (τ (t + 1 + d + 1)).value startPort ≠ 1 := hquiet (d + 1) (Nat.le_refl _)
        have hnext := hlogic.started_next hports h hreset (t + 1 + d)
        rw [if_neg hstart, hbefore, ite_self] at hnext
        exact hnext
  intro haccept
  have hstarted := ((hlogic.accepts_iff hports h _).mp haccept).2.1
  rw [hstopped] at hstarted
  exact absurd hstarted (by decide)

section

variable (hframed : s.Framed) (hcounts : List.Forall₂ ScanCounter.Counts counters s.bounds)

include hframed hcounts

/-- The counters count the windows that are accepted, frame after frame. -/
theorem held_eq (t : Nat) : ScanCounter.held counters (τ (t + 1)) = Scan.position s.bounds
    (((handshake side).accepted τ t).length % Scan.visits s.bounds) := by
  -- Induction on the cycles. A counter moves with a window that is accepted, and only then.
  induction t with
  | zero =>
      have hzero : ScanCounter.held counters (τ 1) = counters.map fun _ => 0 := by
        refine List.map_congr_left fun c hc => ?_
        rw [← ScanCounter.map_fst_moves [.ref "accept"] counters] at hc
        rcases List.mem_map.mp hc with ⟨move, hmove, rfl⟩
        rcases hlogic.counts move hmove with ⟨items, hitems, hsub⟩
        rw [h.register_first hreset hports.clear hitems hsub, Expr.assigned_zero]
      have hnone : ((handshake side).accepted τ 0).length = 0 := rfl
      rw [hzero, hnone, Nat.zero_mod, Scan.position_zero, List.map_const', List.map_const',
        hcounts.length_eq]
  | succ t ih =>
      have hlt := Nat.mod_lt ((handshake side).accepted τ t).length (Scan.visits_pos s.bounds)
      have hstep := hframed.step_eq hlt
      rw [← ih] at hstep
      have hbits : List.Forall₂ (fun e P => e.IsBit Γ (τ (t + 1)) P) [Expr.ref "accept"]
          [(τ (t + 1)).value "accept" = 1] := .cons (h.isBit hlogic.accept (t + 1)) .nil
      have hnext : ∀ move ∈ ScanCounter.moves [.ref "accept"] counters,
          (τ (t + 1 + 1)).value move.1.register
            = if move.2.own Γ (τ (t + 1)) ≠ 0 then move.1.next.assigned Γ (τ (t + 1)) move.1.width
              else (τ (t + 1)).value move.1.register := by
        intro move hmove
        have hmem : move.1 ∈ counters := by
          rw [← ScanCounter.map_fst_moves [.ref "accept"] counters]
          exact List.mem_map_of_mem hmove
        rcases hlogic.counts move hmove with ⟨items, hitems, hsub⟩
        rw [h.register_later hreset hports.clear hitems hsub, State.firstHolding,
          State.firstHolding, h.width_eq (hlogic.declared _ hmem)]
      rw [Handshake.length_accepted_succ]
      by_cases haccept : (handshake side).Accepts (τ (t + 1))
      · rw [if_pos haccept, ← Nat.mod_add_mod]
        exact ScanCounter.held_of_moves hcounts hbits hnext
          (List.forall_mem_singleton.mpr ((hlogic.accept_iff hports h _).mpr haccept))
          (fun c hc => h.width_eq (hlogic.declared c hc)) hstep
      · rw [if_neg haccept, Nat.add_zero (List.length _), ← ih]
        exact ScanCounter.held_of_not hcounts hbits hnext fun hall =>
          haccept ((hlogic.accept_iff hports h _).mp (hall _ (List.mem_singleton_self _)))

/-- The counters are at their last positions before the last window of a frame. -/
theorem last_isBit (t : Nat) : (ScanCounter.allAtLast counters).IsBit Γ (τ (t + 1))
    (Scan.visits s.bounds ∣ ((handshake side).accepted τ t).length + 1) := by
  have hpos := Scan.visits_pos s.bounds
  have hlt := Nat.mod_lt ((handshake side).accepted τ t).length hpos
  have hstep := hframed.step_eq hlt
  rw [← hlogic.held_eq hports h hreset hframed hcounts t] at hstep
  refine (ScanCounter.isBit_allAtLast hcounts hstep).congr ?_
  rw [decide_eq_true_eq, mod_succ_eq_iff hpos]

/-- The mark tells whether the window in the register is the last one of a frame. -/
theorem mark_iff (hside : side = .outward) (t : Nat) (hvalid : (τ (t + 1)).value "r_valid" = 1) :
    (τ (t + 1)).value "r_last" = 1
      ↔ Scan.visits s.bounds ∣ ((handshake side).accepted τ t).length := by
  induction t with
  | zero =>
      rw [hlogic.valid_first hports h hreset] at hvalid
      exact absurd hvalid (by decide)
  | succ t ih =>
      rcases hlogic.marked hside with ⟨hmark, _, items, hitems, hsub⟩
      have hlast := hlogic.last_isBit hports h hreset hframed hcounts t
      rw [hlogic.valid_next hports h hreset] at hvalid
      rw [h.register_later hreset hports.clear hitems hsub, State.firstHolding,
        State.firstHolding, h.width_eq hmark, Handshake.length_accepted_succ,
        if_congr (hlogic.accept_own hports h (t + 1)) rfl rfl]
      by_cases haccept : (handshake side).Accepts (τ (t + 1))
      · rw [if_pos haccept, if_pos haccept, hlast.assigned_eq, hlast.iff]
      · -- What is in the register now has been there before.
        rw [if_neg haccept] at hvalid
        rw [if_neg haccept, if_neg haccept, Nat.add_zero (List.length _)]
        by_cases hready : (τ (t + 1)).value (handshake side).outReady = 1
        · rw [if_pos hready] at hvalid
          exact absurd hvalid (by decide)
        · rw [if_neg hready] at hvalid
          exact ih hvalid

end

end

end

end HasLogic

/-- What holds of an adapter in the cycle after the first `t` ones, if a frame has `n`
    windows. -/
structure Passes (side : AdapterSide) (n : Nat) (τ : Nat → State) (t : Nat) : Prop where
  /-- What has been taken has been handed over or is in the register. -/
  accepted_eq : (handshake side).accepted τ t = (handshake side).delivered τ t
    ++ if (τ (t + 1)).value "r_valid" = 1 then [(τ (t + 1)).value "r_value"] else []
  delivered_before : (handshake side).delivered τ t <+: (handshake side).accepted τ t
  /-- An inward adapter is done when it takes the last window of a frame. -/
  inward_done : side = .inward → ((τ (t + 1)).value donePort = 1 ↔
    (handshake side).Accepts (τ (t + 1)) ∧ n ∣ ((handshake side).accepted τ (t + 1)).length)
  /-- From then on it takes nothing up to the next start. -/
  inward_stops : side = .inward → (τ (t + 1)).value donePort = 1 → ∀ d,
    (∀ k ≤ d, (τ (t + 1 + k)).value startPort ≠ 1) →
      ¬(handshake side).Accepts (τ (t + 1 + d + 1))
  /-- An outward adapter marks the window it offers if it is the last one of a frame. -/
  outward_mark : side = .outward → (τ (t + 1)).value (handshake side).outValid = 1 →
    ((τ (t + 1)).value "data_out_TLAST" = 1
      ↔ n ∣ ((handshake side).delivered τ t).length + 1)
  /-- It is done when it hands that window over. -/
  outward_done : side = .outward → ((τ (t + 1)).value donePort = 1 ↔
    (handshake side).Delivers (τ (t + 1)) ∧ n ∣ ((handshake side).delivered τ (t + 1)).length)

/-- A module with the logic of an adapter passes whole frames. -/
theorem HasLogic.passes {side : AdapterSide} {counters : List ScanCounter} {width : Nat}
    {s : Shape} {library : String → Option Module} {m : Module} {Γ : Typing} {τ : Nat → State}
    (hlogic : HasLogic side counters width m) (hports : HasPorts side width m)
    (h : m.Runs library Γ τ) (hreset : FromReset τ) (hframed : s.Framed)
    (hcounts : List.Forall₂ ScanCounter.Counts counters s.bounds) (t : Nat) :
    Passes side (Scan.visits s.bounds) τ t := by
  have haccepted := hlogic.accepted_eq hports h hreset t
  have hlast := hlogic.last_isBit hports h hreset hframed hcounts t
  have hfinish := hlogic.finish_iff hports h (t + 1)
  have hdelivers := hlogic.delivers_iff hports h (t + 1)
  refine ⟨haccepted, ⟨_, haccepted.symm⟩, ?_, ?_, ?_, ?_⟩
  -- Done inward: the window that is accepted is the last one of a frame.
  · rintro rfl
    have hdone := h.bit_iff hlogic.done hlogic.finishes ((h.isBit hlogic.accept (t + 1)).and hlast)
    rw [hfinish, hdone, hlogic.accept_iff hports h, Handshake.length_accepted_succ]
    exact and_congr_right fun haccept => by rw [if_pos haccept]
  · exact fun _ hdone d hquiet => hlogic.stays_stopped hports h hreset hdone d hquiet
  -- The mark is kept for the window in the register, so it holds of what is offered.
  · intro hside hoffered
    rcases hlogic.marked hside with ⟨hmark, hassign, _⟩
    have hvalid := (h.bit_iff hports.outValid hlogic.offers (h.isBit hlogic.valid (t + 1))).mp hoffered
    rw [h.bit_iff (hports.mark hside) hassign (h.isBit hmark (t + 1)),
      hlogic.mark_iff hports h hreset hframed hcounts hside t hvalid,
      hlogic.length_delivered hports h hreset t hvalid]
  -- Done outward: the window that leaves is one with the mark.
  · rintro rfl
    have hmark := (hlogic.marked rfl).1
    have hdone := h.bit_iff hlogic.done hlogic.finishes (Expr.isBit_all
      (.cons (h.isBit hlogic.valid (t + 1)) (.cons (h.isBit hports.outReady (t + 1))
        (.cons (h.isBit hmark (t + 1)) .nil))))
    rw [List.forall_mem_cons, List.forall_mem_cons, List.forall_mem_singleton, ← and_assoc,
      ← hdelivers] at hdone
    rw [hfinish, hdone, Handshake.length_delivered_succ]
    refine and_congr_right fun hmoves => ?_
    have hvalid := (hdelivers.mp hmoves).1
    rw [if_pos hmoves, hlogic.length_delivered hports h hreset t hvalid,
      hlogic.mark_iff hports h hreset hframed hcounts rfl t hvalid]

/-- The shape of the windows is told by the port on the side of the accelerator. -/
theorem portShape_innerPort {c : Component} {side : AdapterSide} {inner : Shape}
    (hports : c.ports = (Component.adapterOf inner side).ports) :
    c.portShape side.innerPort = .ok inner := by
  rw [Component.portShape, Component.port?, hports]
  cases side <;> rfl

/-- The module of an adapter could be made. -/
theorem make_ok {c : Component} {side : AdapterSide} {inner : Shape} {w w' : Workshop}
    {name : String} (hshape : c.portShape side.innerPort = .ok inner)
    (hlacks : w.library.Lacks (.adapter side inner.elem inner.extents inner.storeExtents))
    (h : Returns (make c side) w name w') : ∃ scan counters m, Scan.ofShape inner = .ok scan ∧
      Adapter.counters scan = .ok counters ∧ w'.library.module? name = some m ∧
        c.modulePorts = .ok m.ports ∧
          body side counters (inner.extents.prod * inner.elem.bits) = .ok m.body := by
  unfold make at h
  rcases returns_lift_bind.mp h with ⟨inner', hinner, hneeds⟩
  rcases Except.ok.inj (hshape.symm.trans hinner) with rfl
  generalize s!"IO_{side.tag}_{inner.typeName}_{Shape.joined inner.storeExtents}" = chosen at hneeds
  rcases Making.returns_of_lacks hlacks hneeds with ⟨hfree, hmade⟩
  rcases returns_lift_bind.mp hmade with ⟨ports, hports, hwidths⟩
  rcases returns_lift_bind.mp hwidths with ⟨width, hwidth, hscans⟩
  rcases returns_lift_bind.mp hscans with ⟨scan, hscan, hcounted⟩
  rcases returns_lift_bind.mp hcounted with ⟨counters, hcounters, hbodies⟩
  rcases returns_lift_bind.mp hbodies with ⟨items, hitems, hdefines⟩
  rcases Making.module_of_define hfree hdefines with ⟨rfl, hmodule⟩
  rcases Shape.dataWidth_ok hwidth with rfl
  exact ⟨scan, counters, ⟨name, ports, items⟩, hscan, hcounters, hmodule, hports, hitems⟩

/-- The body of an adapter can be built, if there is something to hold. -/
theorem body_returns {side : AdapterSide} {counters : List ScanCounter} {width : Nat}
    (hcounters : ∀ c ∈ counters, 0 < c.width) (hwidth : 0 < width) :
    ∃ items, body side counters width = .ok items := by
  -- Each counter has a register with bits and one process that moves it.
  have hcounted : ∃ items,
      Body.join ((ScanCounter.moves [.ref "accept"] counters).map counter) = .ok items := by
    refine Body.join_returns fun part hpart => ?_
    rcases List.mem_map.mp hpart with ⟨move, hmove, rfl⟩
    have hmem : move.1 ∈ counters := by
      rw [← ScanCounter.map_fst_moves [.ref "accept"] counters]
      exact List.mem_map_of_mem hmove
    have hreg : move.1.declaration = .ok [.reg move.1.register move.1.width] :=
      if_neg (Nat.ne_of_gt (hcounters _ hmem))
    exact Body.join_returns (List.forall_mem_cons.mpr
      ⟨⟨_, hreg⟩, List.forall_mem_singleton.mpr ⟨_, rfl⟩⟩)
  have hvalue : Body.reg "r_value" width = .ok [.reg "r_value" width] :=
    if_neg (Nat.ne_of_gt hwidth)
  refine Body.join_returns fun part hpart => ?_
  simp only [List.mem_cons, List.not_mem_nil, or_false] at hpart
  rcases hpart with rfl | rfl | rfl | rfl | rfl | rfl | rfl | rfl | rfl | rfl | rfl | rfl | rfl | rfl
    | rfl | rfl
  · exact ⟨_, rfl⟩
  · exact ⟨_, hvalue⟩
  · exact ⟨_, rfl⟩
  · cases side <;> exact ⟨_, rfl⟩
  · exact ⟨_, rfl⟩
  · exact ⟨_, rfl⟩
  · exact hcounted
  · exact ⟨_, rfl⟩
  · exact ⟨_, rfl⟩
  · exact ⟨_, rfl⟩
  · exact ⟨_, rfl⟩
  · exact ⟨_, rfl⟩
  · cases side <;> exact ⟨_, rfl⟩
  · exact ⟨_, rfl⟩
  · exact ⟨_, rfl⟩
  · cases side <;> exact ⟨_, rfl⟩

/-- The module of an adapter can be made under a name that is free. What the checks of a stream
    leave open is only whether the bits of a window can be counted. -/
theorem make_returns {c : Component} {side : AdapterSide} {inner : Shape} {w : Workshop}
    (hports : c.ports = (Component.adapterOf inner side).ports) (hkind : inner.kind = .stream)
    (hvalid : inner.validate = .ok ()) (hwords : ∀ store ∈ inner.storeExtents, store < Word.limit)
    (hbits : inner.extents.prod * inner.elem.bits + 1 < Word.limit)
    (hfree : w.library.find?
      s!"IO_{side.tag}_{inner.typeName}_{Shape.joined inner.storeExtents}" = none) :
    ∃ name w', Returns (make c side) w name w' := by
  have hshape := portShape_innerPort hports
  have hframed := Shape.framed_of_validate (by rw [Shape.isStream, hkind]; rfl) hvalid hwords
  have helem := (Shape.validate_ok hvalid).1
  have hprod : 0 < inner.extents.prod :=
    List.prod_pos_iff_forall_pos_nat.mpr hframed.extent_pos
  have hwidth := Shape.dataWidth_returns hframed.extent_pos helem (Nat.lt_of_succ_lt hbits)
  -- No side is longer than the volume, which the bits of a window already bound.
  have hextents : ∀ extent ∈ inner.extents, extent + 1 < Word.limit := by
    intro extent hextent
    have hle := Nat.le_of_dvd hprod (List.dvd_prod hextent)
    have hle' := Nat.le_mul_of_pos_right inner.extents.prod helem
    omega
  rcases hframed.scan_returns with ⟨scan, hscan⟩
  rcases hframed.counters_returns hscan hextents with ⟨counters, hcounters, hpos⟩
  have hbody : ∃ items, body side counters (inner.extents.prod * inner.elem.bits) = .ok items :=
    body_returns hpos (Nat.mul_pos hprod helem)
  rcases hbody with ⟨items, hitems⟩
  -- Every port is a bit, the stream or the bus, and the bus is as wide as the stream.
  have hown : ∃ ports, c.modulePorts = .ok ports := by
    have hall : ∀ p ∈ (Component.adapterOf inner side).ports,
        p.2.1 = .bit ∨ p.2.1 = inner ∨ p.2.1 = inner.withKind .busStream := by
      cases side <;> simp [Component.adapterOf, Component.ports]
    refine Component.modulePorts_returns fun p hp => ?_
    rcases hall p (hports ▸ hp) with hshape | hshape | hshape
    · exact ⟨1, hshape ▸ rfl⟩
    · exact ⟨_, by rw [hshape, hwidth]⟩
    · exact ⟨_, by rw [hshape]; exact hwidth⟩
  rcases hown with ⟨ports, hown⟩
  generalize hname : s!"IO_{side.tag}_{inner.typeName}_{Shape.joined inner.storeExtents}" = name
    at hfree
  have hneeds : ∀ parameters, w.library.needs name parameters = .ok true := by
    intro parameters
    rw [Library.needs, hfree]
  refine ⟨name,
    { w with library := w.library.add ⟨name,
      .adapter side inner.elem inner.extents inner.storeExtents,
      [s!"Stream adapter ({side.word}) for {inner.text}, store extents [{listed inner.storeExtents}]"],
      ⟨name, ports, items⟩⟩ }, ?_⟩
  -- What is left is to run the steps one after the other.
  unfold make
  refine returns_lift_bind.mpr ⟨inner, hshape, ?_⟩
  rw [hname]
  refine returns_bind.mpr ⟨true, w, Making.returns_needs.mpr ⟨hneeds _, rfl⟩, ?_⟩
  rw [if_pos rfl]
  refine returns_lift_bind.mpr ⟨ports, hown, returns_lift_bind.mpr ⟨_, hwidth,
    returns_lift_bind.mpr ⟨scan, hscan, returns_lift_bind.mpr ⟨counters, hcounters,
      returns_lift_bind.mpr ⟨items, hitems, ?_⟩⟩⟩⟩⟩
  exact returns_bind.mpr ⟨(), _, Making.returns_define_iff.mpr (.inr ⟨hneeds _, rfl⟩),
    returns_pure.mpr ⟨rfl, rfl⟩⟩

/-- Whatever is offered and wanted, and whenever it is started, an adapter hands over what it
    takes, window by window, and tells the last window of each frame. The windows of a frame
    are those of the scan, whether or not their number is a word. -/
theorem make_passes {c : Component} {side : AdapterSide} {inner : Shape} {w w' : Workshop}
    {name : String} {m : Module} {Γ : Typing} {τ : Nat → State}
    {library : String → Option Module}
    (hports : c.ports = (Component.adapterOf inner side).ports) (hkind : inner.kind = .stream)
    (hvalid : inner.validate = .ok ()) (hwords : ∀ store ∈ inner.storeExtents, store < Word.limit)
    (hlacks : w.library.Lacks (.adapter side inner.elem inner.extents inner.storeExtents))
    (hmake : Returns (make c side) w name w') (hm : w'.library.module? name = some m)
    (h : m.Runs library Γ τ) (hreset : FromReset τ) :
    ∃ scan n, Scan.ofShape inner = .ok scan ∧ scan.transfers = Word.fit n ∧
      ∀ t, Passes side n τ t := by
  have hshape := portShape_innerPort hports
  have hstream : inner.isStream = true := by
    rw [Shape.isStream, hkind]
    rfl
  have hframed := Shape.framed_of_validate hstream hvalid hwords
  rcases make_ok hshape hlacks hmake with ⟨scan, counters, m', hscan, hcounters, hm', hown, hbody⟩
  rcases Option.some.inj (hm.symm.trans hm') with rfl
  exact ⟨scan, _, hscan, hframed.transfers_eq hscan,
    (body_ok hbody).passes (ports_ok hkind hports hown) h hreset hframed
      (hframed.counters_ok hscan hcounters)⟩

/-- Single bytes, two of which make a frame. -/
def pair : Shape := ⟨.stream, .uint 8, [1], [2], 1⟩

/-- The adapters of such a stream. -/
def pairWorkshop (side : AdapterSide) : Workshop :=
  ((make (Component.adapterOf pair side) side).run.run .empty).2

/-- Two bytes come in. The second one has to wait until the first one has left, and a third
    one is not taken any more. -/
def inwardTrace : Trace where
  last := 6
  signals :=
    [("reset", [1]), ("start_in", [0, 1]), ("started", [0, 0, 1, 1, 1]),
     ("data_in_TDATA", [0, 0, 5, 6, 6, 7, 7]), ("data_in_TVALID", [0, 0, 1, 1, 1, 1, 1]),
     ("data_in_TREADY", [0, 0, 1, 0, 1]), ("data_out_value", [0, 0, 0, 5, 5, 6, 6]),
     ("data_out_valid", [0, 0, 0, 1, 1, 1]), ("data_out_ready", [0, 0, 0, 0, 1, 1, 1]),
     ("accept", [0, 0, 1, 0, 1]), ("r_value", [0, 0, 0, 5, 5, 6, 6]),
     ("r_valid", [0, 0, 0, 1, 1, 1]), ("ctr_0", [0, 0, 0, 1, 1]), ("done", [0, 0, 0, 0, 1]),
     ("done_out", [0, 0, 0, 0, 1])]
  cells := []

/-- Two bytes go out, the second one with the mark. -/
def outwardTrace : Trace where
  last := 6
  signals :=
    [("reset", [1]), ("start_in", [0, 1]), ("started", [0, 0, 1, 1, 1, 1]),
     ("data_in_value", [0, 0, 5, 6, 6]), ("data_in_valid", [0, 0, 1, 1, 1]),
     ("data_in_ready", [0, 0, 1, 0, 1, 1]), ("data_out_TDATA", [0, 0, 0, 5, 5, 6, 6]),
     ("data_out_TVALID", [0, 0, 0, 1, 1, 1]), ("data_out_TREADY", [0, 0, 0, 0, 1, 1, 1]),
     ("data_out_TLAST", [0, 0, 0, 0, 0, 1, 1]), ("accept", [0, 0, 1, 0, 1]),
     ("r_value", [0, 0, 0, 5, 5, 6, 6]), ("r_valid", [0, 0, 0, 1, 1, 1]),
     ("r_last", [0, 0, 0, 0, 0, 1, 1]), ("ctr_0", [0, 0, 0, 1, 1]),
     ("done", [0, 0, 0, 0, 0, 1]), ("done_out", [0, 0, 0, 0, 0, 1])]
  cells := []

/-- Both adapters pass the frame. The inward one is done when it takes the second byte, the
    outward one when it hands it over. -/
theorem make_passes_pair :
    (∃ scan n, Scan.ofShape pair = .ok scan ∧ scan.transfers = Word.fit n ∧
      (∀ t, Passes .inward n inwardTrace.state t) ∧ ∀ t, Passes .outward n outwardTrace.state t)
    ∧ (handshake .inward).accepted inwardTrace.state 4 = [5, 6]
    ∧ (inwardTrace.state 4).value donePort = 1
    ∧ (handshake .outward).delivered outwardTrace.state 5 = [5, 6]
    ∧ (outwardTrace.state 5).value "data_out_TLAST" = 1
    ∧ (outwardTrace.state 5).value donePort = 1 := by
  have hruns : ((pairWorkshop .inward).library.moduleD "IO_IN_UInt8_1_2").Runs (fun _ => none)
      ((pairWorkshop .inward).library.moduleD "IO_IN_UInt8_1_2").typing inwardTrace.state :=
    Module.Follows.runs (by decide +kernel) (by decide +kernel)
  have hruns' : ((pairWorkshop .outward).library.moduleD "IO_OUT_UInt8_1_2").Runs (fun _ => none)
      ((pairWorkshop .outward).library.moduleD "IO_OUT_UInt8_1_2").typing outwardTrace.state :=
    Module.Follows.runs (by decide +kernel) (by decide +kernel)
  have hinward := @make_passes (Component.adapterOf pair .inward) .inward pair .empty
    (pairWorkshop .inward) "IO_IN_UInt8_1_2" _ _ _ _ rfl rfl (by decide) (by decide)
    (fun d hd => absurd hd List.not_mem_nil) (Prod.ext (by decide +kernel) rfl)
    (Library.module?_eq_moduleD (by decide +kernel)) hruns
    (Trace.fromReset (by decide) (by decide +kernel))
  have houtward := @make_passes (Component.adapterOf pair .outward) .outward pair .empty
    (pairWorkshop .outward) "IO_OUT_UInt8_1_2" _ _ _ _ rfl rfl (by decide) (by decide)
    (fun d hd => absurd hd List.not_mem_nil) (Prod.ext (by decide +kernel) rfl)
    (Library.module?_eq_moduleD (by decide +kernel)) hruns'
    (Trace.fromReset (by decide) (by decide +kernel))
  rcases hinward with ⟨scan, n, hscan, hcount, hin⟩
  rcases houtward with ⟨scan', n', hscan', hcount', hout⟩
  rcases Except.ok.inj (hscan.symm.trans hscan') with rfl
  -- Both numbers are the one the scan counts.
  have hsame : n = n' := by
    have htwo : (Scan.ofShape pair >>= Scan.transfers) = .ok 2 := by decide +kernel
    rw [hscan] at htwo
    have hn := (Word.fit_eq_ok.mp (hcount.symm.trans htwo)).2
    have hn' := (Word.fit_eq_ok.mp (hcount'.symm.trans htwo)).2
    rw [hn, hn']
  rw [← hsame] at hout
  exact ⟨⟨scan, n, hscan, hcount, hin, hout⟩, by decide +kernel, by decide +kernel,
    by decide +kernel, by decide +kernel, by decide +kernel⟩

end Adapter

end StencilRtl
