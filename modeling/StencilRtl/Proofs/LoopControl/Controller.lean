import StencilRtl.Proofs.LoopControl.Nest
import StencilRtl.Proofs.Rtl.Making
import StencilRtl.Proofs.Rtl.Traces

/-!
# Controllers in Hardware

The module of a controller does what its model does, cycle by cycle, from the reset on.

The two are written in different ways. The model looks at its phase first and then says where
each part of its state goes, and a start replaces whatever has come out. The module has one
process for each register, with a list of guarded values of which the first one that applies
is taken. They agree because the guards stand in the order of the model's tests and only look
at registers that have not moved yet. Where a guard is a wire, like the one that tells that
all window counters hold their last values, the wire has to be what the model has computed at
that point.

Registers have widths and the model's numbers have none, so there is a second reason why the
two could differ. The counters of the model stay at positions of their nests and its flush
stays below the latency, so no sum is ever too large for the register it is put into.

## Main definitions

* `LoopState.after`: The state after a cycle.
* `LoopState.Standing`: The counters are at positions of their nests.
* `LoopControl.HasPorts`, `LoopControl.HasLogic`: A module has the signals and the logic of a
  controller.
* `LoopControl.Holds`: The registers hold a state of the model.
* `LoopControl.Shows`: They do, and the outputs are those of the model.
* `LoopControl.told`: What the surroundings have said since the reset.

## Theorems

* `LoopState.tick_ok`: A cycle of the model, whatever the phase.
* `LoopControl.body_ok`, `LoopControl.ports_ok`: The logic and the signals are there if they
  could be built.
* `LoopControl.Controls.tick`: A cycle of the hardware is a cycle of the model.
* `LoopControl.Controls.trace`: After any number of cycles they are in the same state.
* `LoopControl.fits_body`: No literal is cut.
* `LoopControl.make_shows_model`: Every controller can be made and does what its model does.
-/

namespace StencilRtl

open Rtl

namespace LoopInputs

/-- What the surroundings tell a controller, read off its input signals. -/
def ofState (s : State) : LoopInputs :=
  ⟨s.value startPort = 1, s.value "in_valid" = 1, s.value "space" = 1, s.value "drained" = 1⟩

end LoopInputs

namespace LoopPhase

theorem code_injective {p q : LoopPhase} (h : p.code = q.code) : p = q := by
  cases p <;> cases q <;> first | rfl | exact absurd h (by decide)

theorem code_lt (p : LoopPhase) : p.code < 2 ^ LoopPhase.width := by
  cases p <;> decide

end LoopPhase

namespace LoopState

open LoopVar

/-- The phase after a cycle, if it is known whether the window and the scan counters hold
    their last values. -/
def phaseAfter (c : LoopControl) (s : LoopState) (i : LoopInputs) (windowDone scanDone : Bool) :
    LoopPhase :=
  if s.phase = .idle && i.start then .first
  else if s.phase = .first && i.inValid && i.space && !(s.loadsNow i && windowDone) then .rest
  else if s.loadsNow i && windowDone && scanDone then .flush
  else if s.loadsNow i && windowDone then .first
  else if s.phase = .flush && c.latency ≤ s.flush && i.drained then .idle
  else s.phase

/-- The state after a cycle, if it is also known where the nests move. A start goes before
    everything else, except that it does not move the phase of a run that has begun. -/
def after (c : LoopControl) (s : LoopState) (i : LoopInputs) (windowDone scanDone : Bool)
    (window scan : List Nat) : LoopState where
  phase := s.phaseAfter c i windowDone scanDone
  scan := if i.start then c.scan.map LoopVar.min
    else if s.loadsNow i && windowDone then scan else s.scan
  window := if i.start then c.window.map LoopVar.min
    else if s.loadsNow i then window else s.window
  flush := if i.start then 0
    else if s.phase = .flush && s.flush < c.latency then s.flush + 1 else s.flush

/-- A cycle, whatever the phase and with a start or without one. -/
theorem tick_ok {c : LoopControl} {s : LoopState} {i : LoopInputs} {windowDone scanDone : Bool}
    {window scan : List Nat} (hw : allAtMax c.window s.window = .ok windowDone)
    (hs : allAtMax c.scan s.scan = .ok scanDone) (hmw : moved c.window s.window = .ok window)
    (hms : moved c.scan s.scan = .ok scan) : s.tick c i = .ok
      (⟨s.loadsNow i, s.loadsNow i && windowDone,
        s.phase = .flush && c.latency ≤ s.flush && i.drained, s.scan, s.window⟩,
       s.after c i windowDone scanDone window scan) := by
  have hload : (s.phase = .first && i.inValid && i.space || s.phase = .rest && i.space)
      = s.loadsNow i := rfl
  unfold tick after phaseAfter
  simp only [hload]
  -- What is computed depends on the load, the check of the window counters and the start.
  cases s.loadsNow i <;> cases windowDone <;> cases i.start <;>
    simp [hw, hs, hmw, hms, initial, bind, Except.bind, pure, Except.pure]

/-- The counters hold positions of their nests, and the flush register does not pass the
    latency. -/
structure Standing (c : LoopControl) (s : LoopState) : Prop where
  scan : ∃ a < volume c.scan, s.scan = position c.scan a
  window : ∃ b < volume c.window, s.window = position c.window b
  flush : s.flush ≤ c.latency

/-- A nest at one of its positions can be checked and moved, and then is at a position. -/
theorem moves_of_position {vars : List LoopVar} (hv : ∀ v ∈ vars, v.Runs) {counters : List Nat}
    (h : ∃ k < volume vars, counters = position vars k) :
    ∃ done carry next, allAtMax vars counters = .ok done ∧
      stepNest vars counters = .ok (carry, next) ∧ ∃ k < volume vars, next = position vars k := by
  rcases h with ⟨k, hk, rfl⟩
  have hpos : 0 < volume vars := volume_pos fun v hmem => (hv v hmem).1
  exact ⟨_, _, _, allAtMax_position hv hk, stepNest_position hv hk, _, Nat.mod_lt _ hpos, rfl⟩

theorem first_position {vars : List LoopVar} (hv : ∀ v ∈ vars, v.Runs) :
    ∃ k < volume vars, vars.map LoopVar.min = position vars k :=
  ⟨0, volume_pos fun v hmem => (hv v hmem).1, (position_zero vars).symm⟩

/-- No counter of a nest at one of its positions is past its last value. -/
theorem le_max_of_position {vars : List LoopVar} (hv : ∀ v ∈ vars, v.Runs) {k : Nat}
    (hk : k < volume vars) : List.Forall₂ (fun v x => ∀ last, v.max = .ok last → x ≤ last) vars
      (position vars k) := by
  induction vars generalizing k with
  | nil => exact .nil
  | cons v inner ih =>
      rw [List.forall_mem_cons] at hv
      rw [volume_cons] at hk
      have hpos : 0 < volume inner := volume_pos fun w hw => (hv.2 w hw).1
      have hdigit : k / volume inner < v.extent :=
        Nat.div_lt_of_lt_mul (by rw [Nat.mul_comm]; exact hk)
      refine .cons (fun last hlast => ?_) (ih hv.2 (Nat.mod_lt k hpos))
      rcases Except.ok.inj (hv.1.max_eq.symm.trans hlast) with rfl
      omega

section

variable {c : LoopControl} (hc : ∀ v ∈ c.vars, v.Runs) {s : LoopState}

include hc

theorem runs_scan : ∀ v ∈ c.scan, v.Runs := fun v hv => hc v (List.mem_append_left _ hv)

theorem runs_window : ∀ v ∈ c.window, v.Runs := fun v hv => hc v (List.mem_append_right _ hv)

theorem standing_initial : Standing c (initial c) :=
  ⟨first_position (runs_scan hc), first_position (runs_window hc), Nat.zero_le _⟩

end

/-- The counters stay at positions of their nests, and the flush register does not pass the
    latency. -/
theorem Standing.after {c : LoopControl} (hc : ∀ v ∈ c.vars, v.Runs) {s : LoopState}
    (h : Standing c s) {i : LoopInputs} {windowDone scanDone : Bool} {window scan : List Nat}
    (hwindow : ∃ k < volume c.window, window = position c.window k)
    (hscan : ∃ k < volume c.scan, scan = position c.scan k) :
    Standing c (s.after c i windowDone scanDone window scan) := by
  have hflush := h.flush
  refine ⟨?_, ?_, ?_⟩ <;> dsimp only [LoopState.after]
  -- The scan starts again, moves on or stays, and so does the window.
  · split
    · exact first_position (runs_scan hc)
    · split
      · exact hscan
      · exact h.scan
  · split
    · exact first_position (runs_window hc)
    · split
      · exact hwindow
      · exact h.window
  · split
    · exact Nat.zero_le _
    · split
      next hmoves =>
        rw [Bool.and_eq_true, decide_eq_true_eq, decide_eq_true_eq] at hmoves
        exact hmoves.2
      next => exact hflush

/-- One more cycle of a trace. -/
theorem trace_concat {c : LoopControl} {s mid next : LoopState} {inputs : List LoopInputs}
    {i : LoopInputs} {ticks : List LoopTick} {o : LoopOutputs}
    (h : s.trace c inputs = .ok (ticks, mid)) (htick : mid.tick c i = .ok (o, next)) :
    s.trace c (inputs ++ [i]) = .ok (ticks ++ [⟨mid, i, o⟩], next) := by
  induction inputs generalizing s ticks with
  | nil =>
      rcases Prod.mk.inj (Except.ok.inj h) with ⟨rfl, rfl⟩
      refine Fallible.bind_ok.mpr ⟨_, htick, ?_⟩
      rfl
  | cons j rest ih =>
      rcases Fallible.bind_ok.mp h with ⟨⟨o', s'⟩, hfirst, hrest⟩
      rcases Fallible.bind_ok.mp hrest with ⟨⟨ticks', last'⟩, htrace, heq⟩
      rcases Prod.mk.inj (Except.ok.inj heq) with ⟨rfl, rfl⟩
      refine Fallible.bind_ok.mpr ⟨_, hfirst, Fallible.bind_ok.mpr ⟨_, ih htrace, ?_⟩⟩
      rfl

end LoopState

namespace LoopCounter

/-- Registers that hold a position of their nest are not past their last values. -/
theorem le_last_of_position {vars : List LoopVar} {counters : List LoopCounter}
    (hvars : ∀ v ∈ vars, v.Runs) (hcounts : List.Forall₂ Counts vars counters) {σ : State}
    {values : List Nat} (hvalues : (vars.map fun v => σ.value v.register) = values)
    (hposition : ∃ k < LoopVar.volume vars, values = LoopVar.position vars k) :
    ∀ x ∈ counters, σ.value x.register ≤ x.last := by
  rcases hposition with ⟨k, hk, hk'⟩
  have hle := LoopState.le_max_of_position hvars hk
  rw [← hk', ← hvalues, List.forall₂_map_right_iff] at hle
  intro x hx
  rcases exists_of_forall₂ hcounts.flip hx with ⟨v, hv, hcount⟩
  rw [hcount.register_eq]
  exact List.forall₂_same.mp hle v hv x.last hcount.last_eq

end LoopCounter

namespace LoopControl

/-- A module has the signals of a controller. -/
structure HasPorts (c : LoopControl) (m : Module) : Prop where
  clear : (reset, 1) ∈ m.signals
  bits : ∀ name ∈ [startPort, "in_valid", "space", "drained", donePort, "load", "last"],
    (name, 1) ∈ m.signals
  shown : ∀ v ∈ c.vars, ∀ width, v.width = .ok width → (v.name, width) ∈ m.signals

/-- The module of a controller has its signals. -/
theorem ports_ok {c : LoopControl} {m : Module} (h : c.ports = .ok m.ports) : c.HasPorts m := by
  rcases Fallible.bind_ok.mp h with ⟨shown, hshown, hports⟩
  have hports := Except.ok.inj hports
  -- The ports with fixed names come first, then those that show variables.
  have hsignal : ∀ p : Port, p ∈ Port.common ++ inputNames.map (fun name => Port.input name 1)
      ++ outputNames.map (fun name => Port.output name 1) ++ shown →
      (p.name, p.width) ∈ m.signals := by
    intro p hp
    rw [hports] at hp
    exact Module.signals_of_port hp
  refine ⟨hsignal (.input reset 1) (by simp [Port.common]), fun name hname => ?_,
    fun v hv width hwidth => ?_⟩
  · simp only [List.mem_cons, List.not_mem_nil, or_false] at hname
    rcases hname with rfl | rfl | rfl | rfl | rfl | rfl | rfl
    · exact hsignal (.input startPort 1) (by simp [inputNames])
    · exact hsignal (.input "in_valid" 1) (by simp [inputNames])
    · exact hsignal (.input "space" 1) (by simp [inputNames])
    · exact hsignal (.input "drained" 1) (by simp [inputNames])
    · exact hsignal (.output donePort 1) (by simp [outputNames])
    · exact hsignal (.output "load" 1) (by simp [outputNames])
    · exact hsignal (.output "last" 1) (by simp [outputNames])
  · rcases Fallible.mem_of_mapM_ok hshown v hv with ⟨p, hp, hout⟩
    rcases Fallible.bind_ok.mp hout with ⟨width', hwidth', hp'⟩
    rcases Except.ok.inj (hwidth.symm.trans hwidth') with rfl
    have hmem := hsignal p (List.mem_append_right _ hp)
    rw [← Except.ok.inj hp'] at hmem
    exact hmem

/-- A module has the logic of a controller. -/
structure HasLogic (c : LoopControl) (flushWidth : Nat) (scan window : List LoopCounter)
    (m : Module) : Prop where
  shown : ∀ v ∈ c.vars, ∃ width, v.width = .ok width ∧ (v.register, width) ∈ m.signals
    ∧ .assign (.ref v.name) (.ref v.register) ∈ m.body
  state : ("state", LoopPhase.width) ∈ m.signals
  flush : ("flush", flushWidth) ∈ m.signals
  nets : ∀ name ∈ ["step0", "step1", "window_done", "scan_done", "flush_done"],
    (name, 1) ∈ m.signals
  step0 : .assign (.ref "step0") (.all [LoopPhase.active .first, .ref "in_valid", .ref "space"])
    ∈ m.body
  step1 : .assign (.ref "step1") (.and (LoopPhase.active .rest) (.ref "space")) ∈ m.body
  load : .assign (.ref "load") (.or (.ref "step0") (.ref "step1")) ∈ m.body
  windowDone : .assign (.ref "window_done") (LoopCounter.allAtLast window) ∈ m.body
  last : .assign (.ref "last") (.and (.ref "load") (.ref "window_done")) ∈ m.body
  scanDone : .assign (.ref "scan_done") (LoopCounter.allAtLast scan) ∈ m.body
  flushDone : .assign (.ref "flush_done")
    (.binary .ge (.ref "flush") (.literal flushWidth c.latency)) ∈ m.body
  done : .assign (.ref donePort)
    (.all [LoopPhase.active .flush, .ref "flush_done", .ref "drained"]) ∈ m.body
  windowNest : ∀ part ∈ LoopCounter.nest (.ref "load") window,
    ∃ items, part = .ok items ∧ ∀ i ∈ items, i ∈ m.body
  scanNest : ∀ part ∈ LoopCounter.nest (.ref "last") scan,
    ∃ items, part = .ok items ∧ ∀ i ∈ items, i ∈ m.body
  flushes : ∃ items, flushUpdate flushWidth = .ok items ∧ ∀ i ∈ items, i ∈ m.body
  phases : ∃ items, phaseUpdate = .ok items ∧ ∀ i ∈ items, i ∈ m.body

/-- The logic is there if it could be built. -/
theorem body_ok {c : LoopControl} {flushWidth : Nat} {scan window : List LoopCounter} {m : Module}
    (hflush : bitsToHold c.latency = .ok flushWidth) (hscan : c.scan.mapM LoopVar.counter = .ok scan)
    (hwindow : c.window.mapM LoopVar.counter = .ok window) (h : c.body = .ok m.body) :
    c.HasLogic flushWidth scan window m := by
  unfold body at h
  rw [hflush, hscan, hwindow] at h
  -- What the list of parts has at each place is looked up by its number.
  have hall : ∀ i ∈ m.body, i ∈ m.body := fun i hi => hi
  have hstep0 := Body.join_net h (List.mem_of_getElem? (i := 3) rfl)
  have hstep1 := Body.join_net h (List.mem_of_getElem? (i := 4) rfl)
  have hwindowDone := Body.join_net h (List.mem_of_getElem? (i := 8) rfl)
  have hscanDone := Body.join_net h (List.mem_of_getElem? (i := 12) rfl)
  have hflushDone := Body.join_net h (List.mem_of_getElem? (i := 13) rfl)
  exact {
    shown := fun v hv => by
      rcases Body.join_part h hall (List.mem_of_getElem? (i := 0) rfl) with ⟨own, hown, hsub⟩
      rcases Body.join_part hown hsub (List.mem_map_of_mem hv) with ⟨part, hpart, hsub'⟩
      rcases Fallible.bind_ok.mp hpart with ⟨width, hwidth, hitems⟩
      exact ⟨width, hwidth,
        Module.signals_of_reg (hsub' _ (Body.join_reg hitems (List.mem_cons_self ..))),
        hsub' _ (Body.join_assign hitems (List.mem_of_getElem? (i := 1) rfl))⟩
    state := Module.signals_of_reg (Body.join_reg h (List.mem_of_getElem? (i := 1) rfl))
    flush := Module.signals_of_reg (Body.join_reg h (List.mem_of_getElem? (i := 2) rfl))
    nets := fun name hname => by
      simp only [List.mem_cons, List.not_mem_nil, or_false] at hname
      rcases hname with rfl | rfl | rfl | rfl | rfl
      · exact Module.signals_of_wire hstep0.1
      · exact Module.signals_of_wire hstep1.1
      · exact Module.signals_of_wire hwindowDone.1
      · exact Module.signals_of_wire hscanDone.1
      · exact Module.signals_of_wire hflushDone.1
    step0 := hstep0.2
    step1 := hstep1.2
    load := Body.join_assign h (List.mem_of_getElem? (i := 5) rfl)
    windowDone := hwindowDone.2
    last := Body.join_assign h (List.mem_of_getElem? (i := 9) rfl)
    scanDone := hscanDone.2
    flushDone := hflushDone.2
    done := Body.join_assign h (List.mem_of_getElem? (i := 14) rfl)
    windowNest := fun part hpart => by
      rcases Body.join_part h hall (List.mem_of_getElem? (i := 7) rfl) with ⟨own, hown, hsub⟩
      exact Body.join_part hown hsub hpart
    scanNest := fun part hpart => by
      rcases Body.join_part h hall (List.mem_of_getElem? (i := 11) rfl) with ⟨own, hown, hsub⟩
      exact Body.join_part hown hsub hpart
    flushes := Body.join_part h hall (List.mem_of_getElem? (i := 15) rfl)
    phases := Body.join_part h hall (List.mem_of_getElem? (i := 16) rfl) }

/-- A run of the hardware of a controller from a reset on. -/
structure Controls (c : LoopControl) (flushWidth : Nat) (scan window : List LoopCounter)
    (library : String → Option Module) (m : Module) (Γ : Typing) (τ : Nat → State) : Prop where
  vars : ∀ v ∈ c.vars, v.Runs
  logic : c.HasLogic flushWidth scan window m
  ports : c.HasPorts m
  width_eq : bitsToHold c.latency = .ok flushWidth
  room : c.latency < 2 ^ flushWidth
  scan_counts : List.Forall₂ LoopCounter.Counts c.scan scan
  window_counts : List.Forall₂ LoopCounter.Counts c.window window
  run : m.Runs library Γ τ
  fromReset : FromReset τ

/-- The registers hold the state of a controller. -/
structure Holds (c : LoopControl) (σ : State) (s : LoopState) : Prop where
  phase : σ.value "state" = s.phase.code
  flush : σ.value "flush" = s.flush
  scan : (c.scan.map fun v => σ.value v.register) = s.scan
  window : (c.window.map fun v => σ.value v.register) = s.window

theorem Holds.active_isBit {c : LoopControl} {σ : State} {s : LoopState} (h : c.Holds σ s)
    {Γ : Typing} (p : LoopPhase) : (LoopPhase.active p).IsBit Γ σ (s.phase = p) := by
  refine (Expr.isBit_hasValue p.code_lt).congr ?_
  rw [h.phase]
  exact ⟨LoopPhase.code_injective, fun hp => congrArg LoopPhase.code hp⟩

namespace Controls

variable {c : LoopControl} {flushWidth : Nat} {scan window : List LoopCounter}
  {library : String → Option Module} {m : Module} {Γ : Typing} {τ : Nat → State}
  (h : c.Controls flushWidth scan window library m Γ τ)

include h

theorem isBit_port (name : String)
    (hname : name ∈ [startPort, "in_valid", "space", "drained", donePort, "load", "last"])
    (t : Nat) : (Expr.ref name).IsBit Γ (τ t) ((τ t).value name = 1) :=
  h.run.isBit (h.ports.bits name hname) t

theorem isBit_net (name : String)
    (hname : name ∈ ["step0", "step1", "window_done", "scan_done", "flush_done"])
    (t : Nat) : (Expr.ref name).IsBit Γ (τ t) ((τ t).value name = 1) :=
  h.run.isBit (h.logic.nets name hname) t

/-- The counters of a nest are declared. -/
theorem declared {vars : List LoopVar} {counters : List LoopCounter} (hsub : ∀ v ∈ vars, v ∈ c.vars)
    (hcounts : List.Forall₂ LoopCounter.Counts vars counters) :
    ∀ x ∈ counters, (x.register, x.width) ∈ m.signals := by
  intro x hx
  rcases exists_of_forall₂ hcounts.flip hx with ⟨v, hv, hcount⟩
  rcases h.logic.shown v (hsub v hv) with ⟨width, hwidth, hsignal, _⟩
  rcases Except.ok.inj (hwidth.symm.trans hcount.width_eq) with rfl
  rw [hcount.register_eq]
  exact hsignal

theorem declared_scan : ∀ x ∈ scan, (x.register, x.width) ∈ m.signals :=
  h.declared (fun _ hv => List.mem_append_left _ hv) h.scan_counts

theorem declared_window : ∀ x ∈ window, (x.register, x.width) ∈ m.signals :=
  h.declared (fun _ hv => List.mem_append_right _ hv) h.window_counts

/-- After the reset the registers hold the first state. -/
theorem holds_first : c.Holds (τ 1) (LoopState.initial c) := by
  rcases h.logic.phases with ⟨items, hitems, hsub⟩
  rcases h.logic.flushes with ⟨fitems, hfitems, hfsub⟩
  have hzero : 0 < 2 ^ flushWidth := Nat.two_pow_pos flushWidth
  -- The phase and the flush register, then the counters of both nests.
  refine ⟨?_, ?_, ?_, ?_⟩
  · rw [h.run.register_first h.fromReset h.ports.clear hitems hsub, h.run.width_eq h.logic.state,
      LoopPhase.literal, Expr.assigned_literal (LoopPhase.code_lt _)]
    rfl
  · rw [h.run.register_first h.fromReset h.ports.clear hfitems hfsub,
      h.run.width_eq h.logic.flush, Expr.assigned_literal hzero]
    rfl
  · rw [← LoopCounter.held_eq h.scan_counts]
    exact LoopCounter.held_first h.scan_counts h.declared_scan h.logic.scanNest h.run h.fromReset
      h.ports.clear
  · rw [← LoopCounter.held_eq h.window_counts]
    exact LoopCounter.held_first h.window_counts h.declared_window h.logic.windowNest h.run
      h.fromReset h.ports.clear

section

variable {t : Nat} {s : LoopState} (hholds : c.Holds (τ t) s)

include hholds

theorem step0_iff : (τ t).value "step0" = 1 ↔
    (s.phase = .first && (LoopInputs.ofState (τ t)).inValid && (LoopInputs.ofState (τ t)).space)
      = true := by
  have hbit := h.run.bit_iff (h.logic.nets "step0" (by simp)) h.logic.step0 (Expr.isBit_all
    (.cons (hholds.active_isBit .first) (.cons (h.isBit_port _ (by simp) t)
      (.cons (h.isBit_port _ (by simp) t) .nil))))
  rw [hbit, List.forall_mem_cons, List.forall_mem_cons, List.forall_mem_singleton]
  simp only [LoopInputs.ofState, Bool.and_eq_true, decide_eq_true_eq, and_assoc]

theorem load_iff : (τ t).value "load" = 1 ↔ s.loadsNow (LoopInputs.ofState (τ t)) = true := by
  have hrest := h.run.bit_iff (h.logic.nets "step1" (by simp)) h.logic.step1
    ((hholds.active_isBit .rest).and (h.isBit_port "space" (by simp) t))
  have hbit := h.run.bit_iff (h.ports.bits "load" (by simp)) h.logic.load
    ((h.isBit_net _ (by simp) t).or (h.isBit_net _ (by simp) t))
  rw [hbit, h.step0_iff hholds, hrest, LoopState.loadsNow, Bool.or_eq_true]
  simp only [LoopInputs.ofState, Bool.and_eq_true, decide_eq_true_eq]

theorem last_iff {windowDone : Bool} (hw : LoopState.allAtMax c.window s.window = .ok windowDone) :
    (τ t).value "last" = 1 ↔ (s.loadsNow (LoopInputs.ofState (τ t)) && windowDone) = true := by
  rw [← hholds.window, ← LoopCounter.held_eq h.window_counts] at hw
  have hdone := h.run.bit_iff (h.logic.nets "window_done" (by simp)) h.logic.windowDone
    (LoopCounter.isBit_allAtLast h.window_counts hw)
  have hbit := h.run.bit_iff (h.ports.bits "last" (by simp)) h.logic.last
    ((h.isBit_port _ (by simp) t).and (h.isBit_net _ (by simp) t))
  rw [hbit, h.load_iff hholds, hdone, Bool.and_eq_true]

theorem scanDone_iff {scanDone : Bool} (hs : LoopState.allAtMax c.scan s.scan = .ok scanDone) :
    (τ t).value "scan_done" = 1 ↔ scanDone = true := by
  rw [← hholds.scan, ← LoopCounter.held_eq h.scan_counts] at hs
  exact h.run.bit_iff (h.logic.nets "scan_done" (by simp)) h.logic.scanDone
    (LoopCounter.isBit_allAtLast h.scan_counts hs)

theorem flushDone_iff : (τ t).value "flush_done" = 1 ↔ c.latency ≤ s.flush := by
  rw [h.run.bit_iff (h.logic.nets "flush_done" (by simp)) h.logic.flushDone
    (Expr.isBit_ge h.room), hholds.flush]

theorem done_iff : (τ t).value donePort = 1 ↔
    (s.phase = .flush && c.latency ≤ s.flush && (LoopInputs.ofState (τ t)).drained) = true := by
  have hbit := h.run.bit_iff (h.ports.bits donePort (by simp)) h.logic.done (Expr.isBit_all
    (.cons (hholds.active_isBit .flush) (.cons (h.isBit_net _ (by simp) t)
      (.cons (h.isBit_port _ (by simp) t) .nil))))
  rw [hbit, List.forall_mem_cons, List.forall_mem_cons, List.forall_mem_singleton,
    h.flushDone_iff hholds]
  simp only [LoopInputs.ofState, Bool.and_eq_true, decide_eq_true_eq, and_assoc]

end

/-- The registers of a nest go where the model's do. -/
theorem nest_next {t : Nat} {vars : List LoopVar} {counters : List LoopCounter} {advance : String}
    (hvars : ∀ v ∈ vars, v.Runs) (hcounts : List.Forall₂ LoopCounter.Counts vars counters)
    (hdeclared : ∀ x ∈ counters, (x.register, x.width) ∈ m.signals)
    (hparts : ∀ part ∈ LoopCounter.nest (.ref advance) counters,
      ∃ items, part = .ok items ∧ ∀ i ∈ items, i ∈ m.body)
    (hadvance : advance ∈ ["load", "last"]) {moves : Bool}
    (hmoves : (τ (t + 1)).value advance = 1 ↔ moves = true) {values next : List Nat}
    (hvalues : (vars.map fun v => (τ (t + 1)).value v.register) = values)
    (hposition : ∃ k < LoopVar.volume vars, values = LoopVar.position vars k) {carry : Bool}
    (hstep : LoopState.stepNest vars values = .ok (carry, next)) :
    (vars.map fun v => (τ (t + 1 + 1)).value v.register)
      = if (LoopInputs.ofState (τ (t + 1))).start then vars.map LoopVar.min
        else if moves then next else values := by
  have hbit := h.isBit_port advance (by
    simp only [List.mem_cons, List.not_mem_nil, or_false] at hadvance
    rcases hadvance with rfl | rfl <;> simp) (t + 1)
  have hstart := h.ports.bits startPort (by simp)
  have hbelow := LoopCounter.le_last_of_position hvars hcounts hvalues hposition
  -- What the registers hold is what the counters hold, which the lemmas about nests speak of.
  rw [← LoopCounter.held_eq hcounts] at hvalues ⊢
  rw [← hvalues] at hstep ⊢
  by_cases hstarted : (τ (t + 1)).value startPort = 1
  · rw [LoopInputs.ofState, if_pos (decide_eq_true hstarted)]
    exact LoopCounter.held_started hcounts hdeclared hparts h.run h.fromReset h.ports.clear hstart
      hstarted
  · rw [LoopInputs.ofState, if_neg (by rw [decide_eq_true_eq]; exact hstarted)]
    cases moves with
    | true =>
        exact (LoopCounter.held_moved hcounts hdeclared hparts h.run h.fromReset h.ports.clear hstart
          hstarted hbit hbelow (hmoves.mpr rfl) hstep).1
    | false =>
        exact LoopCounter.held_stays hcounts hdeclared hparts h.run h.fromReset h.ports.clear hstart
          hstarted hbit fun hc => absurd (hmoves.mp hc) Bool.false_ne_true

section

variable {t : Nat} {s : LoopState} (hholds : c.Holds (τ (t + 1)) s)

include hholds

/-- The register of the phase takes the same branch as the model. -/
theorem phase_next {windowDone scanDone : Bool}
    (hw : LoopState.allAtMax c.window s.window = .ok windowDone)
    (hs : LoopState.allAtMax c.scan s.scan = .ok scanDone) : (τ (t + 1 + 1)).value "state"
      = (s.phaseAfter c (LoopInputs.ofState (τ (t + 1))) windowDone scanDone).code := by
  rcases h.logic.phases with ⟨items, hitems, hsub⟩
  have hstart := (hholds.active_isBit .idle).and (h.isBit_port startPort (by simp) (t + 1))
  have hfirst := (h.isBit_net "step0" (by simp) (t + 1)).and
    (h.isBit_port "last" (by simp) (t + 1)).not
  have hends := (h.isBit_port "last" (by simp) (t + 1)).and
    (h.isBit_net "scan_done" (by simp) (t + 1))
  have hlast := h.isBit_port "last" (by simp) (t + 1)
  have hdone := h.isBit_port donePort (by simp) (t + 1)
  have hliteral : ∀ p : LoopPhase, p.literal.assigned Γ (τ (t + 1)) LoopPhase.width = p.code :=
    fun p => Expr.assigned_literal p.code_lt
  -- Each guard becomes the test of the model that stands in its place.
  simp only [h.run.register_later h.fromReset h.ports.clear hitems hsub, State.firstHolding,
    h.run.width_eq h.logic.state, hliteral, hstart.own_ne_zero, hfirst.own_ne_zero,
    hends.own_ne_zero, hlast.own_ne_zero, hdone.own_ne_zero, hholds.phase,
    h.step0_iff hholds, h.last_iff hholds hw, h.scanDone_iff hholds hs, h.done_iff hholds]
  simp only [LoopState.phaseAfter, apply_ite LoopPhase.code]
  refine if_congr ?_ rfl (if_congr ?_ rfl (if_congr ?_ rfl rfl))
  · simp only [LoopInputs.ofState, Bool.and_eq_true, decide_eq_true_eq]
  · have hnot : ∀ a b : Bool, (a = true ∧ ¬b = true) ↔ (a && !b) = true := by decide
    exact hnot _ _
  · exact Iff.of_eq (Bool.and_eq_true _ _).symm

/-- The register of the flush counts up to the latency and does not pass it. -/
theorem flush_next : (τ (t + 1 + 1)).value "flush"
    = if (LoopInputs.ofState (τ (t + 1))).start then 0
      else if s.phase = .flush && s.flush < c.latency then s.flush + 1 else s.flush := by
  rcases h.logic.flushes with ⟨items, hitems, hsub⟩
  have hroom := h.room
  have hzero : 0 < 2 ^ flushWidth := Nat.two_pow_pos flushWidth
  have hstart := h.isBit_port startPort (by simp) (t + 1)
  have hcounts := (hholds.active_isBit (Γ := Γ) .flush).and
    (h.isBit_net "flush_done" (by simp) (t + 1)).not
  rw [h.run.register_later h.fromReset h.ports.clear hitems hsub, State.firstHolding,
    State.firstHolding, State.firstHolding, h.run.width_eq h.logic.flush,
    Expr.assigned_literal hzero, Expr.assigned_plus (h.run.width_eq h.logic.flush), hholds.flush]
  refine if_congr (hstart.own_ne_zero.trans (decide_eq_true_iff).symm) rfl ?_
  have hbelow : (s.phase = .flush ∧ ¬(τ (t + 1)).value "flush_done" = 1) ↔
      (s.phase = .flush && s.flush < c.latency) = true := by
    rw [h.flushDone_iff hholds, Nat.not_le, Bool.and_eq_true, decide_eq_true_eq, decide_eq_true_eq]
  rw [if_congr (hcounts.own_ne_zero.trans hbelow) rfl rfl]
  by_cases hmoves : (s.phase = .flush && s.flush < c.latency) = true
  · -- Below the latency the sum has room.
    have hlt : s.flush < c.latency := by
      rw [Bool.and_eq_true, decide_eq_true_eq, decide_eq_true_eq] at hmoves
      exact hmoves.2
    rw [if_pos hmoves, if_pos hmoves, Nat.mod_eq_of_lt (by omega)]
  · rw [if_neg hmoves, if_neg hmoves]

/-- No counter is past its last value, which its width has room for. -/
theorem counters_fit (hstanding : s.Standing c) : ∀ v ∈ c.vars, ∃ last width,
    v.max = .ok last ∧ v.width = .ok width ∧ (τ (t + 1)).value v.register ≤ last
      ∧ last < 2 ^ width := by
  have hnest : ∀ {vars : List LoopVar} {counters : List LoopCounter},
      List.Forall₂ LoopCounter.Counts vars counters →
      (∀ x ∈ counters, (τ (t + 1)).value x.register ≤ x.last) → ∀ v ∈ vars, ∃ last width,
        v.max = .ok last ∧ v.width = .ok width ∧ (τ (t + 1)).value v.register ≤ last
          ∧ last < 2 ^ width := by
    intro vars counters hcounts hbelow v hv
    rcases exists_of_forall₂ hcounts hv with ⟨x, hx, hcount⟩
    exact ⟨x.last, x.width, hcount.last_eq, hcount.width_eq, hcount.register_eq ▸ hbelow x hx,
      hcount.room⟩
  refine List.forall_mem_append.mpr ⟨hnest h.scan_counts ?_, hnest h.window_counts ?_⟩
  · exact LoopCounter.le_last_of_position (LoopState.runs_scan h.vars) h.scan_counts hholds.scan
      hstanding.scan
  · exact LoopCounter.le_last_of_position (LoopState.runs_window h.vars) h.window_counts
      hholds.window hstanding.window

end

/-- A variable of a loop is shown as it is. -/
theorem shown_eq {v : LoopVar} (hv : v ∈ c.vars) (t : Nat) :
    (τ t).value v.name = (τ t).value v.register := by
  rcases h.logic.shown v hv with ⟨width, hwidth, hsignal, hassign⟩
  rw [h.run.assigned hassign, h.run.width_eq (h.ports.shown v hv width hwidth)]
  exact Expr.assigned_ref (h.run.value_lt hsignal t)

end Controls

/-- What the signals of a controller show of its state and of what it says. -/
structure Shows (c : LoopControl) (σ : State) (s : LoopState) (o : LoopOutputs) : Prop
    extends Holds c σ s where
  load : σ.value "load" = 1 ↔ o.load = true
  last : σ.value "last" = 1 ↔ o.last = true
  done : σ.value donePort = 1 ↔ o.done = true
  scan_shown : (c.scan.map fun v => σ.value v.name) = o.scan
  window_shown : (c.window.map fun v => σ.value v.name) = o.window
  /-- No counter is past its last value, which its width has room for. -/
  counters_fit : ∀ v ∈ c.vars, ∃ last width, v.max = .ok last ∧ v.width = .ok width ∧
    σ.value v.register ≤ last ∧ last < 2 ^ width
  /-- Nor is the register of the flush past the latency. -/
  flush_fits : ∃ width, bitsToHold c.latency = .ok width ∧ σ.value "flush" ≤ c.latency ∧
    c.latency < 2 ^ width

/-- A cycle of the hardware is a cycle of the model. -/
theorem Controls.tick {c : LoopControl} {flushWidth : Nat} {scan window : List LoopCounter}
    {library : String → Option Module} {m : Module} {Γ : Typing} {τ : Nat → State}
    (h : c.Controls flushWidth scan window library m Γ τ) {t : Nat} {s : LoopState}
    (hholds : c.Holds (τ (t + 1)) s) (hstanding : s.Standing c) :
    ∃ o next, s.tick c (LoopInputs.ofState (τ (t + 1))) = .ok (o, next) ∧
      c.Shows (τ (t + 1)) s o ∧ c.Holds (τ (t + 1 + 1)) next ∧ next.Standing c := by
  have hscans := LoopState.runs_scan h.vars
  have hwindows := LoopState.runs_window h.vars
  rcases LoopState.moves_of_position hscans hstanding.scan with
    ⟨scanDone, scanCarry, scanNext, hs, hsmove, hsnext⟩
  rcases LoopState.moves_of_position hwindows hstanding.window with
    ⟨windowDone, windowCarry, windowNext, hw, hwmove, hwnext⟩
  have htick := LoopState.tick_ok (i := LoopInputs.ofState (τ (t + 1))) hw hs
    (by rw [LoopState.moved, hwmove]; rfl) (by rw [LoopState.moved, hsmove]; rfl)
  -- Each nest moves as its counters do, the inner one at every load and the outer one at the last.
  have hscan := h.nest_next hscans h.scan_counts h.declared_scan h.logic.scanNest (by simp)
    (h.last_iff hholds hw) hholds.scan hstanding.scan hsmove
  have hwindow := h.nest_next hwindows h.window_counts h.declared_window h.logic.windowNest
    (by simp) (h.load_iff hholds) hholds.window hstanding.window hwmove
  refine ⟨_, _, htick, ⟨hholds, h.load_iff hholds, h.last_iff hholds hw, h.done_iff hholds, ?_, ?_,
    h.counters_fit hholds hstanding, flushWidth, h.width_eq, ?_, h.room⟩,
    ⟨h.phase_next hholds hw hs, h.flush_next hholds, hscan, hwindow⟩,
    hstanding.after h.vars hwnext hsnext⟩
  · rw [← hholds.scan]
    exact List.map_congr_left fun v hv => h.shown_eq (List.mem_append_left _ hv) _
  · rw [← hholds.window]
    exact List.map_congr_left fun v hv => h.shown_eq (List.mem_append_right _ hv) _
  · rw [hholds.flush]
    exact hstanding.flush

/-- What the surroundings have told a controller in the first `t` cycles after the reset. -/
def told (τ : Nat → State) (t : Nat) : List LoopInputs :=
  (List.range t).map fun k => LoopInputs.ofState (τ (k + 1))

/-- In every cycle the hardware is where the model is after the same inputs. -/
theorem Controls.trace {c : LoopControl} {flushWidth : Nat} {scan window : List LoopCounter}
    {library : String → Option Module} {m : Module} {Γ : Typing} {τ : Nat → State}
    (h : c.Controls flushWidth scan window library m Γ τ) (t : Nat) :
    ∃ ticks s, (LoopState.initial c).trace c (told τ t) = .ok (ticks, s) ∧
      c.Holds (τ (t + 1)) s ∧ s.Standing c := by
  induction t with
  | zero => exact ⟨[], _, rfl, h.holds_first, LoopState.standing_initial h.vars⟩
  | succ t ih =>
      rcases ih with ⟨ticks, s, htrace, hholds, hstanding⟩
      rcases h.tick hholds hstanding with ⟨o, next, htick, _, hnext, hstands⟩
      have htold : told τ (t + 1) = told τ t ++ [LoopInputs.ofState (τ (t + 1))] := by
        rw [told, told, List.range_succ, List.map_append, List.map_singleton]
      rw [htold]
      exact ⟨_, next, LoopState.trace_concat htrace htick, hnext, hstands⟩

theorem fits_shown (v : LoopVar) : (shown v).Fits := by
  intro items hitems
  rcases Fallible.bind_ok.mp hitems with ⟨width, _, hitems⟩
  have hregister : (Rtl.Expr.ref v.register).Fits := trivial
  exact Body.Fits.join (List.forall_mem_cons.mpr ⟨Body.fits_reg _ _,
    List.forall_mem_singleton.mpr (Body.fits_assign v.name hregister)⟩) items hitems

/-- No literal of a controller is cut. -/
theorem fits_body {c : LoopControl} (hc : ∀ v ∈ c.vars, v.Runs) (hlatency : c.latency + 1 < Word.limit) :
    c.body.Fits := by
  rcases LoopVar.counters_ok (LoopState.runs_scan hc) with ⟨scan, hscan, hscans⟩
  rcases LoopVar.counters_ok (LoopState.runs_window hc) with ⟨window, hwindow, hwindows⟩
  have hroom := le_two_pow_bitsNeededFor (c.latency + 1)
  have hone : 1 < 2 ^ bitsNeededFor (c.latency + 1) :=
    Nat.one_lt_two_pow (Nat.ne_of_gt (bitsNeededFor_pos _))
  have hzero : 0 < 2 ^ bitsNeededFor (c.latency + 1) := Nat.two_pow_pos _
  have hactive : ∀ p : LoopPhase, (LoopPhase.active p).Fits := fun p => Expr.fits_hasValue p.code_lt
  have hliteral : ∀ p : LoopPhase, (LoopPhase.literal p).Fits := fun p => p.code_lt
  intro items hitems
  unfold body at hitems
  rw [bitsToHold_of_lt hlatency, hscan, hwindow] at hitems
  refine Body.Fits.join (fun part hpart => ?_) items hitems
  simp only [List.mem_cons, List.not_mem_nil, or_false] at hpart
  -- Beside the counters the literals are the codes of phases, zero, one and the latency.
  rcases hpart with rfl | rfl | rfl | rfl | rfl | rfl | rfl | rfl | rfl | rfl | rfl | rfl | rfl | rfl
    | rfl | rfl | rfl
  · exact .join (List.forall_mem_map.mpr fun v _ => fits_shown v)
  · exact Body.fits_reg _ _
  · exact Body.fits_reg _ _
  · exact Body.fits_net _ _ ⟨hactive .first, trivial, trivial, trivial⟩
  · exact Body.fits_net _ _ ⟨hactive .rest, trivial, trivial⟩
  · exact Body.fits_assign _ ⟨trivial, trivial, trivial⟩
  · exact Body.fits_assign _ ⟨hactive .first, hactive .rest, trivial⟩
  · exact .join (LoopCounter.fits_nest hwindows trivial)
  · exact Body.fits_net _ _ (Expr.fits_all (LoopCounter.fits_atLast hwindows))
  · exact Body.fits_assign _ ⟨trivial, trivial, trivial⟩
  · exact Body.fits_assign _ trivial
  · exact .join (LoopCounter.fits_nest hscans trivial)
  · exact Body.fits_net _ _ (Expr.fits_all (LoopCounter.fits_atLast hscans))
  · exact Body.fits_net _ _ ⟨trivial, hroom⟩
  · exact Body.fits_assign _ ⟨hactive .flush, trivial, trivial, trivial⟩
  · refine Body.fits_register _ hzero (List.forall_mem_cons.mpr ⟨⟨trivial, hzero⟩,
      List.forall_mem_singleton.mpr ⟨?_, Expr.fits_plus hone⟩⟩)
    exact ⟨hactive .flush, trivial, trivial⟩
  · refine Body.fits_register _ (hliteral .idle) fun u hu => ?_
    simp only [List.mem_cons, List.not_mem_nil, or_false] at hu
    rcases hu with rfl | rfl | rfl | rfl | rfl
    · exact ⟨⟨hactive .idle, trivial, trivial⟩, hliteral .first⟩
    · exact ⟨⟨trivial, trivial, trivial⟩, hliteral .rest⟩
    · exact ⟨⟨trivial, trivial, trivial⟩, hliteral .flush⟩
    · exact ⟨trivial, hliteral .first⟩
    · exact ⟨trivial, hliteral .idle⟩

theorem nest_returns (advance : Rtl.Expr) (counters : List LoopCounter) :
    ∃ items, Body.join (LoopCounter.nest advance counters) = .ok items := by
  refine Body.join_returns ?_
  induction counters with
  | nil => exact fun b hb => absurd hb List.not_mem_nil
  | cons x inner ih => exact List.forall_mem_cons.mpr ⟨⟨_, rfl⟩, ih⟩

/-- A variable that runs has a register with bits, which its port shows. -/
theorem shown_returns {v : LoopVar} (hv : v.Runs) : ∃ items, shown v = .ok items := by
  rcases LoopVar.counter_ok hv with ⟨x, _, hcount⟩
  have hreg : Body.reg v.register x.width = .ok [.reg v.register x.width] :=
    if_neg (Nat.ne_of_gt hcount.width_pos)
  refine ⟨[.reg v.register x.width, .assign (.ref v.name) (.ref v.register)], ?_⟩
  rw [shown, hcount.width_eq]
  simp only [bind, Except.bind, Body.join, hreg]
  rfl

/-- The body of every controller can be built. -/
theorem body_returns {c : LoopControl} (hc : ∀ v ∈ c.vars, v.Runs)
    (hlatency : c.latency + 1 < Word.limit) : ∃ items, c.body = .ok items := by
  rcases LoopVar.counters_ok (LoopState.runs_scan hc) with ⟨scan, hscan, _⟩
  rcases LoopVar.counters_ok (LoopState.runs_window hc) with ⟨window, hwindow, _⟩
  have hshown : ∃ items, Body.join (c.vars.map shown) = .ok items := by
    refine Body.join_returns fun part hpart => ?_
    rcases List.mem_map.mp hpart with ⟨v, hv, rfl⟩
    exact shown_returns (hc v hv)
  have hflush : Body.reg "flush" (bitsNeededFor (c.latency + 1))
      = .ok [.reg "flush" (bitsNeededFor (c.latency + 1))] :=
    if_neg (Nat.ne_of_gt (bitsNeededFor_pos _))
  unfold body
  rw [bitsToHold_of_lt hlatency, hscan, hwindow]
  -- Only registers could be refused, for having no bits.
  -- Only registers could be refused, for having no bits.
  refine Body.join_returns fun part hpart => ?_
  simp only [List.mem_cons, List.not_mem_nil, or_false] at hpart
  rcases hpart with rfl | rfl | rfl | rfl | rfl | rfl | rfl | rfl | rfl | rfl | rfl | rfl | rfl | rfl
    | rfl | rfl | rfl
  · exact hshown
  · exact ⟨_, rfl⟩
  · exact ⟨_, hflush⟩
  · exact ⟨_, rfl⟩
  · exact ⟨_, rfl⟩
  · exact ⟨_, rfl⟩
  · exact ⟨_, rfl⟩
  · exact nest_returns _ _
  · exact ⟨_, rfl⟩
  · exact ⟨_, rfl⟩
  · exact ⟨_, rfl⟩
  · exact nest_returns _ _
  · exact ⟨_, rfl⟩
  · exact ⟨_, rfl⟩
  · exact ⟨_, rfl⟩
  · exact ⟨_, rfl⟩
  · exact ⟨_, rfl⟩

theorem rangesText_returns {vars : List LoopVar} (hvars : ∀ v ∈ vars, v.Runs) :
    ∃ text, rangesText vars = .ok text := by
  have hranges : ∃ ranges, vars.mapM LoopVar.rangeText = .ok ranges :=
    Fallible.mapM_returns fun v hv => ⟨_, Fallible.bind_ok.mpr ⟨_, (hvars v hv).max_eq, rfl⟩⟩
  rcases hranges with ⟨ranges, hranges⟩
  exact ⟨_, Fallible.bind_ok.mpr ⟨ranges, hranges, rfl⟩⟩

/-- The header of every controller can be written. -/
theorem header_returns {c : LoopControl} (hc : ∀ v ∈ c.vars, v.Runs) :
    ∃ header, c.header = .ok header := by
  rcases rangesText_returns (LoopState.runs_scan hc) with ⟨scanText, hscan⟩
  rcases rangesText_returns (LoopState.runs_window hc) with ⟨windowText, hwindow⟩
  exact ⟨_, Fallible.bind_ok.mpr ⟨_, hscan, Fallible.bind_ok.mpr ⟨_, hwindow, rfl⟩⟩⟩

/-- A controller whose variables run can be made under a name that is free. -/
theorem make_returns {c : LoopControl} (hc : ∀ v ∈ c.vars, v.Runs)
    (hlatency : c.latency + 1 < Word.limit) {w : Workshop}
    (hfree : w.library.find? (c.moduleName w.library) = none) :
    ∃ w' m, Returns c.make w (c.moduleName w.library) w' ∧
      w'.library.module? (c.moduleName w.library) = some m ∧ c.ports = .ok m.ports ∧
        c.body = .ok m.body := by
  rcases body_returns hc hlatency with ⟨items, hitems⟩
  have hshown : ∃ shown, c.vars.mapM LoopVar.output = .ok shown :=
    Fallible.mapM_returns fun v hv => ⟨_, Fallible.bind_ok.mpr ⟨_, (hc v hv).width_eq, rfl⟩⟩
  rcases hshown with ⟨shown, hshown⟩
  have hports : ∃ ports, c.ports = .ok ports := ⟨_, Fallible.bind_ok.mpr ⟨shown, hshown, rfl⟩⟩
  rcases hports with ⟨ports, hports⟩
  rcases header_returns hc with ⟨header, hheader⟩
  -- The name is free, so the module is made and found under it.
  have hneeds : w.library.needs (c.moduleName w.library) (.loopControl c) = .ok true := by
    rw [Library.needs, hfree]
  generalize hname : c.moduleName w.library = name at *
  have hself : (w.library.add ⟨name, .loopControl c, header, ⟨name, ports, items⟩⟩).find? name
      = some ⟨name, .loopControl c, header, ⟨name, ports, items⟩⟩ :=
    Library.find?_add_self (d := ⟨name, .loopControl c, header, ⟨name, ports, items⟩⟩) hfree
  refine ⟨⟨w.library.add ⟨name, .loopControl c, header, ⟨name, ports, items⟩⟩, w.warnings⟩,
    ⟨name, ports, items⟩, ?_, ?_, hports, hitems⟩
  · unfold make
    refine returns_get_bind.mpr ?_
    rw [hname]
    refine returns_bind.mpr ⟨true, w, Making.returns_needs.mpr ⟨hneeds, rfl⟩, ?_⟩
    rw [if_pos rfl]
    refine returns_lift_bind.mpr ⟨ports, hports, returns_lift_bind.mpr ⟨items, hitems,
      returns_lift_bind.mpr ⟨header, hheader, ?_⟩⟩⟩
    exact returns_bind.mpr ⟨(), _, Making.returns_define_iff.mpr (.inr ⟨hneeds, rfl⟩),
      returns_pure.mpr ⟨rfl, rfl⟩⟩
  · rw [Library.module?, hself]
    rfl

/-- Every controller can be made, and what is made does what the model does, from the reset on,
    whatever its inputs are and whenever it is started. -/
theorem make_shows_model (c : LoopControl) (hc : ∀ v ∈ c.vars, v.Runs)
    (hlatency : c.latency + 1 < Word.limit) (w : Workshop)
    (hfree : w.library.find? (c.moduleName w.library) = none) :
    ∃ w' m, Returns c.make w (c.moduleName w.library) w' ∧
      w'.library.module? (c.moduleName w.library) = some m ∧ (∀ i ∈ m.body, i.Fits) ∧
      ∀ library Γ τ, m.Runs library Γ τ → FromReset τ → ∀ t, ∃ ticks s o next,
        (LoopState.initial c).trace c (told τ t) = .ok (ticks, s) ∧
        s.tick c (LoopInputs.ofState (τ (t + 1))) = .ok (o, next) ∧ c.Shows (τ (t + 1)) s o := by
  rcases make_returns hc hlatency hfree with ⟨w', m, hmake, hm, hports, hbody⟩
  rcases LoopVar.counters_ok (LoopState.runs_scan hc) with ⟨scan, hscan, hscans⟩
  rcases LoopVar.counters_ok (LoopState.runs_window hc) with ⟨window, hwindow, hwindows⟩
  have hflush := bitsToHold_of_lt hlatency
  refine ⟨w', m, hmake, hm, fits_body hc hlatency m.body hbody, fun library Γ τ hruns hreset t => ?_⟩
  have hcontrols : c.Controls (bitsNeededFor (c.latency + 1)) scan window library m Γ τ :=
    ⟨hc, body_ok hflush hscan hwindow hbody, ports_ok hports, hflush,
      le_two_pow_bitsNeededFor (c.latency + 1), hscans, hwindows, hruns, hreset⟩
  rcases hcontrols.trace t with ⟨ticks, s, htrace, hholds, hstanding⟩
  rcases hcontrols.tick hholds hstanding with ⟨o, next, htick, hshows, _, _⟩
  exact ⟨ticks, s, o, next, htrace, htick, hshows⟩

/-- Two steps of a scan with two positions of a window in each of them. -/
def twoByTwo : LoopControl := ⟨[⟨"x", 0, 2⟩], [⟨"k", 1, 2⟩], 1⟩

/-- The controller that walks them. -/
def twoByTwoWorkshop : Workshop := (twoByTwo.make.run.run .empty).2

/-- A second start comes when the first step is done, and the walk begins again. There is a
    wait for room before the first load. -/
def restartedTrace : Trace where
  last := 12
  signals :=
    [("reset", [1]), ("start_in", [0, 1, 0, 0, 1]),
     ("in_valid", [0, 0, 1, 0, 0, 1, 1, 1, 1]), ("space", [0, 0, 1, 0, 1, 1, 1, 1, 1]),
     ("drained", [0, 0, 0, 0, 0, 0, 0, 0, 0, 0, 0, 1, 1]),
     ("done_out", [0, 0, 0, 0, 0, 0, 0, 0, 0, 0, 0, 1]),
     ("enable", [0, 0, 1, 1, 1, 1, 1, 1, 1]), ("load", [0, 0, 1, 0, 1, 1, 1, 1, 1]),
     ("last", [0, 0, 0, 0, 1, 0, 1, 0, 1]), ("pop", [0, 0, 0, 0, 1, 0, 1, 0, 1]),
     ("x", [0, 0, 0, 0, 0, 0, 0, 1, 1]), ("k", [0, 1, 1, 2, 2, 1, 2, 1, 2, 1, 1, 1, 1]),
     ("r_x", [0, 0, 0, 0, 0, 0, 0, 1, 1]), ("r_k", [0, 1, 1, 2, 2, 1, 2, 1, 2, 1, 1, 1, 1]),
     ("state", [0, 0, 1, 2, 2, 1, 2, 1, 2, 3, 3, 3]),
     ("flush", [0, 0, 0, 0, 0, 0, 0, 0, 0, 0, 1, 1, 1]), ("step0", [0, 0, 1, 0, 0, 1, 0, 1]),
     ("step1", [0, 0, 0, 0, 1, 0, 1, 0, 1]), ("window_done", [0, 0, 0, 1, 1, 0, 1, 0, 1]),
     ("scan_done", [0, 0, 0, 0, 0, 0, 0, 1, 1]),
     ("flush_done", [0, 0, 0, 0, 0, 0, 0, 0, 0, 0, 1, 1, 1])]
  cells := []

/-- After the second start both steps are walked as if there had been no first one. -/
theorem make_shows_model_restarted :
    (∃ m, twoByTwoWorkshop.library.module? "ForControl_#0" = some m ∧ (∀ i ∈ m.body, i.Fits) ∧
      ∀ t, ∃ ticks s o next,
        (LoopState.initial twoByTwo).trace twoByTwo (told restartedTrace.state t) = .ok (ticks, s) ∧
        s.tick twoByTwo (LoopInputs.ofState (restartedTrace.state (t + 1))) = .ok (o, next) ∧
        twoByTwo.Shows (restartedTrace.state (t + 1)) s o)
    ∧ (restartedTrace.state 4).value startPort = 1
    ∧ (restartedTrace.state 11).value donePort = 1 := by
  have hruns : ∀ v ∈ twoByTwo.vars, v.Runs :=
    List.forall_mem_cons.mpr ⟨⟨by decide, 1, rfl⟩,
      List.forall_mem_singleton.mpr ⟨by decide, 2, rfl⟩⟩
  rcases make_shows_model twoByTwo hruns (by decide) .empty (by decide +kernel) with
    ⟨w', m, hmake, hm, hfits, hshows⟩
  have hname : twoByTwo.moduleName Workshop.empty.library = "ForControl_#0" := by decide +kernel
  have hw' : twoByTwoWorkshop = w' := congrArg Prod.snd hmake
  rw [← hw', hname] at hm
  have hm' : m = twoByTwoWorkshop.library.moduleD "ForControl_#0" :=
    Option.some.inj (hm.symm.trans (Library.module?_eq_moduleD (by decide +kernel)))
  have hrun : m.Runs (fun _ => none) m.typing restartedTrace.state := by
    rw [hm']
    exact Module.Follows.runs (by decide +kernel) (by decide +kernel)
  exact ⟨⟨m, hm, hfits, hshows _ _ _ hrun (Trace.fromReset (by decide) (by decide +kernel))⟩,
    by decide +kernel, by decide +kernel⟩

end LoopControl

end StencilRtl
