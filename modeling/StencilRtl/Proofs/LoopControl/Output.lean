import StencilRtl.Hardware.OutputAssembly
import StencilRtl.Proofs.LoopControl.Run
import StencilRtl.Proofs.Rtl.Counters
import StencilRtl.Proofs.Rtl.Making
import StencilRtl.Proofs.Rtl.Streams
import StencilRtl.Proofs.Rtl.Traces

/-!
# The Output of a Stage

What becomes of the windows that a stage gathers.

A controller and an output assembly depend on each other within one cycle: the controller
loads only if there is space for what the load may give, and whether there is space depends
on whether the last window is being taken. Nothing goes round in a circle, though, since
space is a matter of what the register of the assembly holds. So a window is captured only
when the register is free or just being emptied, and the register is all that stands
between the windows that were captured and those that were taken.

That a stage is done in time follows from two facts that do not know of each other. The
controller says that all scan steps had their last load, and the assembly says that its
register is empty.

## Main definitions

* `LoopTick.finished`: The scan steps that had their last load.
* `AssemblyPlan.HasLogic`: A module has the logic of an output assembly.
* `Coupled`: A controller and an output assembly run together.
* `captures`: The windows of committed last loads.
* `Delivers`: No window is lost, and the stage is not done too early.

## Theorems

* `Coupled.scan_lasts`: The scan steps that are finished, by the number of loads.
* `AssemblyPlan.HasLogic.captured_eq`: What was captured was taken or waits.
* `AssemblyPlan.make_delivers`: A stage delivers its windows.
-/

namespace StencilRtl

open LoopState LoopVar LoopTick

/-- The scan steps that had their last load, in order. -/
def LoopTick.finished (ticks : List LoopTick) : List (List Nat) :=
  (ticks.filter fun t => t.outputs.last).map fun t => t.outputs.scan

namespace Reached

variable {c : LoopControl} {ticks : List LoopTick} {s : LoopState} {i : LoopInputs}

/-- A block ends with the number that has the last remainder. -/
theorem succ_div_eq {n size : Nat} (hsize : 0 < size) :
    (n + 1) / size = n / size + if n % size + 1 = size then 1 else 0 := by
  rcases Nat.exists_eq_succ_of_ne_zero (Nat.ne_of_gt hsize) with ⟨last, rfl⟩
  rw [Nat.succ_div]
  refine congrArg _ (if_congr ?_ rfl rfl)
  rw [Nat.dvd_iff_mod_eq_zero, Nat.succ_eq_add_one, Nat.succ_mod_succ_eq_zero_iff,
    Nat.add_right_cancel_iff]

section

variable {o : LoopOutputs} {next : LoopState} (hc : ∀ v ∈ c.vars, v.Runs) (h : Reached c ticks s)
  (hi : i.start = false) (htick : s.tick c i = .ok (o, next))

include hc h hi htick

/-- A cycle without a load finishes nothing. -/
theorem finished_of_not_load (hload : s.loadsNow i = false) :
    loads (ticks ++ [⟨s, i, o⟩]) = loads ticks ∧ finished [⟨s, i, o⟩] = [] := by
  rcases h.counters hc with ⟨a, b, ha, hb, hpa, hpb⟩
  rw [tick_eq hc ha hb hpa hpb hi, hload, Except.ok.injEq, Prod.mk.injEq] at htick
  rcases htick with ⟨rfl, -⟩
  rw [loads_append, loads_of_not_load rfl, List.append_nil]
  exact ⟨rfl, rfl⟩

/-- A cycle finishes a scan step if it completes the loads of one. -/
theorem finished_tick :
    (positions c.scan).take ((loads (ticks ++ [⟨s, i, o⟩])).length / volume c.window)
      = (positions c.scan).take ((loads ticks).length / volume c.window)
        ++ finished [⟨s, i, o⟩] := by
  cases hload : s.loadsNow i with
  | false =>
      rcases h.finished_of_not_load hc hi htick hload with ⟨hsame, hnone⟩
      rw [hsame, hnone, List.append_nil]
  | true =>
      -- Only a controller that walks loads, and it tells at which load it is.
      cases h with
      | draining _ _ _ hphase => exact absurd hload (by simp [loadsNow, hphase])
      | rested _ hrested => exact absurd hload (by simp [loadsNow, hrested.1])
      | walking n hn hloads hscan hwindow hphase hflush hundone =>
          have hw : 0 < volume c.window :=
            volume_pos fun v hv => (hc v (List.mem_append_right _ hv)).1
          have hvolume : volume c.vars = volume c.window * volume c.scan := by
            rw [LoopControl.vars, volume_append, Nat.mul_comm]
          have ha : n / volume c.window < volume c.scan :=
            Nat.div_lt_of_lt_mul (by rwa [← hvolume])
          have hb : n % volume c.window < volume c.window := Nat.mod_lt n hw
          rw [tick_eq hc ha hb hscan hwindow hi, hload, Except.ok.injEq, Prod.mk.injEq] at htick
          rcases htick with ⟨rfl, -⟩
          have hlength : (loads ticks).length = n := by
            rw [hloads, List.length_take, length_positions]
            omega
          rw [loads_append, loads_of_load rfl, List.length_append, List.length_singleton, hlength,
            succ_div_eq hw]
          by_cases hlast : n % volume c.window + 1 = volume c.window
          · rw [if_pos hlast, take_succ_positions ha, ← hscan]
            simp [finished, hlast]
          · rw [if_neg hlast]
            simp [finished, hlast]

/-- A last load is a load, and only an active controller loads. -/
theorem active_of_last (hlast : o.last = true) : o.load = true ∧ (s.phase = .first ∨ s.phase = .rest) := by
  rcases h.counters hc with ⟨a, b, ha, hb, hpa, hpb⟩
  have hload := ((h.last_iff hc hi htick).mp hlast).1
  rw [tick_eq hc ha hb hpa hpb hi, Except.ok.injEq, Prod.mk.injEq] at htick
  have hnow : s.loadsNow i = true := by
    rw [← htick.1] at hload
    exact hload
  simp only [loadsNow, Bool.or_eq_true, Bool.and_eq_true, decide_eq_true_eq] at hnow
  exact ⟨hload, hnow.imp (fun hfirst => hfirst.1.1) And.left⟩

end

end Reached

namespace AssemblyPlan

open Rtl

/-- A module has the logic of an output assembly, as far as windows are captured and
    offered. -/
structure HasLogic (width : Nat) (m : Module) : Prop where
  next : ("acc_next", width) ∈ m.signals
  value : ("r_value", width) ∈ m.signals
  valid : ("r_valid", 1) ∈ m.signals
  write : ("write", 1) ∈ m.signals
  capture : ("capture", 1) ∈ m.signals
  writes : .assign (.ref "write") (.and (.ref "enable") (.ref "load")) ∈ m.body
  captures : .assign (.ref "capture") (.all (Rtl.Expr.refs ["write", "last", "commit"])) ∈ m.body
  keeps : ∃ items, Body.enabled (.ref "r_value") (.ref "capture") (.ref "acc_next") = .ok items ∧
    ∀ i ∈ items, i ∈ m.body
  holds : ∃ items, Body.register "r_valid" (.number 0)
    [(.ref "capture", .number 1), (.ref "out_ready", .number 0)] = .ok items ∧
      ∀ i ∈ items, i ∈ m.body
  shows : .assign (.ref "out_value") (.ref "r_value") ∈ m.body
  offers : .assign (.ref "out_valid") (.ref "r_valid") ∈ m.body
  spares : .assign (.ref "space") (.or (.not (.ref "r_valid")) (.ref "out_ready")) ∈ m.body

/-- The logic is there if it could be built. -/
theorem hasLogic_of_body {p : AssemblyPlan} {m : Module} (hbody : p.body = .ok m.body) :
    HasLogic (p.shape.extents.prod * p.shape.elem.bits) m := by
  rcases Fallible.bind_ok.mp hbody with ⟨width, hwidth, h⟩
  rcases Shape.dataWidth_ok hwidth with rfl
  have hall : ∀ i ∈ m.body, i ∈ m.body := fun i hi => hi
  -- Each field is one part of the body, found by its place in it.
  have hregister : ∀ name width i, _ → (name, width) ∈ m.signals :=
    fun name width i hpart =>
      Module.signals_of_reg (Body.join_reg h (List.mem_of_getElem? (i := i) hpart))
  have hwrite := Body.join_net h (List.mem_of_getElem? (i := 4) rfl)
  have hcapture := Body.join_net h (List.mem_of_getElem? (i := 7) rfl)
  exact ⟨hregister _ _ 1 rfl, hregister _ _ 2 rfl, hregister _ _ 3 rfl,
    Module.signals_of_wire hwrite.1, Module.signals_of_wire hcapture.1, hwrite.2, hcapture.2,
    Body.join_part h hall (List.mem_of_getElem? (i := 8) rfl),
    Body.join_part h hall (List.mem_of_getElem? (i := 9) rfl),
    Body.join_assign h (List.mem_of_getElem? (i := 11) rfl),
    Body.join_assign h (List.mem_of_getElem? (i := 12) rfl),
    Body.join_assign h (List.mem_of_getElem? (i := 13) rfl)⟩

/-- A module has the ports of an output assembly. -/
structure HasPorts (width : Nat) (m : Module) : Prop where
  reset : (reset, 1) ∈ m.signals
  control : ∀ name ∈ ["enable", "load", "last", "commit"], (name, 1) ∈ m.signals
  out : m.Carries "out" width
  space : ("space", 1) ∈ m.signals

theorem hasPorts_of_ports {p : AssemblyPlan} {m : Module} (hports : p.ports = .ok m.ports)
    (hstream : p.shape.kind = .stream) :
    HasPorts (p.shape.extents.prod * p.shape.elem.bits) m := by
  rcases Fallible.bind_ok.mp hports with ⟨indexWidth, _, hrest⟩
  rcases Fallible.bind_ok.mp hrest with ⟨out, hout, hrest⟩
  rcases Fallible.bind_ok.mp hrest with ⟨width, _, hall⟩
  -- The ports written out once, so that each of those asked for is found by its place.
  have hmem : ∀ q ∈ Port.common ++ ["enable", "load", "last", "commit"].map (fun name =>
      Port.input name 1) ++ (List.range p.writes).flatMap
        (resultPorts indexWidth p.shape.elem.bits .input)
      ++ out ++ [Port.output "space" 1, Port.output "acc_out" width], q ∈ m.ports := by
    rw [← Except.ok.inj hall]
    exact fun q hq => hq
  refine ⟨Module.signals_of_port (hmem (Port.input Rtl.reset 1) (by simp [Port.common])),
    fun name hname => Module.signals_of_port (hmem (Port.input name 1) ?_),
    Module.carries_of_ofShape hout hstream fun q hq => hmem q (by simp [hq]),
    Module.signals_of_port (hmem (Port.output "space" 1) (by simp))⟩
  exact List.mem_append_left _ (List.mem_append_left _ (List.mem_append_left _
    (List.mem_append_right _ (List.mem_map_of_mem hname))))

/-- The module of an output assembly could be made. -/
theorem make_built {p : AssemblyPlan} {w w' : Workshop} {name : String}
    (hstream : p.shape.kind = .stream) (hlacks : w.library.Lacks p.parameters)
    (h : Returns p.make w name w') :
    ∃ m, w'.library.module? name = some m ∧ p.ports = .ok m.ports ∧ p.body = .ok m.body := by
  have hisStream : p.shape.isStream = true := by simp [Shape.isStream, hstream]
  unfold make at h
  rw [hisStream] at h
  rcases Making.returns_of_lacks hlacks h with ⟨hfree, hmade⟩
  rcases returns_lift_bind.mp hmade with ⟨ports, hports, hbodies⟩
  rcases returns_lift_bind.mp hbodies with ⟨items, hitems, hdefines⟩
  rcases Making.module_of_define hfree hdefines with ⟨rfl, hmodule⟩
  exact ⟨⟨p.moduleName, ports, items⟩, hmodule, hports, hitems⟩

/-- The windows that have been captured in the first `t` cycles after the reset. -/
def captured (τ : Nat → State) (t : Nat) : List Nat :=
  ((List.range t).filter fun k => (τ (k + 1)).value "capture" = 1).map fun k =>
    (τ (k + 1)).value "acc_next"

theorem captured_succ {τ : Nat → State} (t : Nat) : captured τ (t + 1) = captured τ t
    ++ if (τ (t + 1)).value "capture" = 1 then [(τ (t + 1)).value "acc_next"] else [] := by
  simpa only [captured, decide_eq_true_eq] using filter_map_range_succ (fun k =>
    decide ((τ (k + 1)).value "capture" = 1)) (fun k => (τ (k + 1)).value "acc_next") t

/-- The window that waits to be taken, if there is one. -/
def waiting (s : State) : List Nat :=
  if s.value "out_valid" = 1 then [s.value "out_value"] else []

namespace HasLogic

variable {width : Nat} {library : String → Option Module} {m : Module} {Γ : Typing}
  {τ : Nat → State} (hlogic : HasLogic width m) (hports : HasPorts width m)
  (h : m.Runs library Γ τ) (t : Nat)

include hlogic hports h

/-- What the register holds is what is offered. -/
theorem offered_eq : (τ t).value "out_valid" = (τ t).value "r_valid" ∧
    (τ t).value "out_value" = (τ t).value "r_value" := by
  have hvalid : Γ.width "out_valid" = 1 := h.width_eq hports.out.valid
  have hvalue : Γ.width "out_value" = width := h.width_eq hports.out.value
  constructor
  · rw [h.assigned hlogic.offers, hvalid, Expr.assigned_ref (h.value_lt hlogic.valid t)]
  · rw [h.assigned hlogic.shows, hvalue, Expr.assigned_ref (h.value_lt hlogic.value t)]

/-- There is space if the register is free or just being emptied. -/
theorem space_iff : (τ t).value "space" = 1 ↔
    (τ t).value "out_valid" ≠ 1 ∨ (τ t).value "out_ready" = 1 := by
  rw [(hlogic.offered_eq hports h t).1]
  exact h.bit_iff hports.space hlogic.spares
    ((h.isBit hlogic.valid t).not.or (h.isBit hports.out.ready t))

/-- A window is captured with a last load that is committed. -/
theorem capture_iff : (τ t).value "capture" = 1 ↔ ((τ t).value "enable" = 1 ∧
    (τ t).value "load" = 1) ∧ (τ t).value "last" = 1 ∧ (τ t).value "commit" = 1 := by
  have hbit : ∀ name ∈ ["enable", "load", "last", "commit"],
      (Expr.ref name).IsBit Γ (τ t) ((τ t).value name = 1) := fun name hname =>
    h.isBit (hports.control name hname) t
  have hwrite : (τ t).value "write" = 1 ↔ (τ t).value "enable" = 1 ∧ (τ t).value "load" = 1 :=
    h.bit_iff hlogic.write hlogic.writes
      ((hbit "enable" (by decide)).and (hbit "load" (by decide)))
  have hall : (Expr.all (Rtl.Expr.refs ["write", "last", "commit"])).IsBit Γ (τ t)
      (∀ P ∈ [(τ t).value "write" = 1, (τ t).value "last" = 1, (τ t).value "commit" = 1], P) :=
    Expr.isBit_all (.cons (h.isBit hlogic.write t)
      (.cons (hbit "last" (by decide)) (.cons (hbit "commit" (by decide)) .nil)))
  rw [List.forall_mem_cons, List.forall_mem_cons, List.forall_mem_singleton, hwrite] at hall
  exact h.bit_iff hlogic.capture hlogic.captures hall

/-- The register is filled by a capture and emptied when its window is taken. -/
theorem valid_next (hreset : (τ t).value reset = 0) : (τ (t + 1)).value "out_valid"
    = if (τ t).value "capture" = 1 then 1
      else if (τ t).value "out_ready" = 1 then 0 else (τ t).value "out_valid" := by
  rcases hlogic.holds with ⟨items, hitems, hsub⟩
  have hguard : ¬(Expr.ref reset).own Γ (τ t) ≠ 0 := by
    rw [(h.isBit hports.reset t).own_ne_zero, hreset]
    exact Nat.zero_ne_one
  rw [(hlogic.offered_eq hports h (t + 1)).1, (hlogic.offered_eq hports h t).1,
    h.register_next hitems hsub, State.firstHolding, if_neg hguard, State.firstHolding,
    State.firstHolding, State.firstHolding, h.width_eq hlogic.valid, Expr.assigned_zero]
  exact if_congr (h.isBit hlogic.capture t).own_ne_zero rfl
    (if_congr (h.isBit hports.out.ready t).own_ne_zero rfl rfl)

/-- Nothing but a capture changes what the register holds. -/
theorem value_next : (τ (t + 1)).value "out_value"
    = if (τ t).value "capture" = 1 then (τ t).value "acc_next"
      else (τ t).value "out_value" := by
  rcases hlogic.keeps with ⟨items, hitems, hsub⟩
  rw [(hlogic.offered_eq hports h (t + 1)).2, (hlogic.offered_eq hports h t).2,
    h.enabled_next hitems hsub, State.firstHolding, State.firstHolding, h.width_eq hlogic.value,
    Expr.assigned_ref (h.value_lt hlogic.next t)]
  exact if_congr (h.isBit hlogic.capture t).own_ne_zero rfl rfl

/-- What was captured was taken or waits, as long as nothing is captured without space. -/
theorem captured_eq (hempty : (τ 1).value "out_valid" ≠ 1)
    (hreset : ∀ k, (τ (k + 1)).value reset = 0)
    (hspace : ∀ k, (τ (k + 1)).value "capture" = 1 → (τ (k + 1)).value "space" = 1) :
    captured τ t = transfers τ "out" t ++ waiting (τ (t + 1)) := by
  induction t with
  | zero => rw [waiting, if_neg hempty]; rfl
  | succ t ih =>
      have hmoves : (τ (t + 1)).Moves "out" ↔ (τ (t + 1)).value "out_valid" = 1 ∧
          (τ (t + 1)).value "out_ready" = 1 := Iff.rfl
      rw [captured_succ, transfers_succ, ih, waiting, waiting,
        hlogic.valid_next hports h (t + 1) (hreset t), hlogic.value_next hports h (t + 1)]
      by_cases hcapture : (τ (t + 1)).value "capture" = 1
      · -- If the register is not free, the window in it is taken in this cycle.
        have hroom := (hlogic.space_iff hports h (t + 1)).mp (hspace t hcapture)
        by_cases hvalid : (τ (t + 1)).value "out_valid" = 1
        · have htaken := hmoves.mpr ⟨hvalid, hroom.resolve_left (not_not_intro hvalid)⟩
          simp [hcapture, hvalid, htaken]
        · simp [hcapture, hvalid, hmoves]
      · by_cases hready : (τ (t + 1)).value "out_ready" = 1
        · simp [hcapture, hready, hmoves]
        · simp [hcapture, hready, hmoves]

/-- A window that waits is not overwritten. -/
theorem kept (hreset : (τ t).value reset = 0)
    (hspace : (τ t).value "capture" = 1 → (τ t).value "space" = 1)
    (hvalid : (τ t).value "r_valid" = 1) (hstill : ¬(τ t).Moves "out") :
    (τ (t + 1)).value "r_valid" = 1 ∧
      (τ (t + 1)).value "r_value" = (τ t).value "r_value" := by
  rw [← (hlogic.offered_eq hports h t).1] at hvalid
  have hready : (τ t).value "out_ready" ≠ 1 := fun hr => hstill ⟨hvalid, hr⟩
  have hcapture : (τ t).value "capture" ≠ 1 := fun hc =>
    ((hlogic.space_iff hports h t).mp (hspace hc)).elim (fun hn => hn hvalid) hready
  rw [← (hlogic.offered_eq hports h (t + 1)).1, ← (hlogic.offered_eq hports h (t + 1)).2,
    ← (hlogic.offered_eq hports h t).2, hlogic.valid_next hports h t hreset,
    hlogic.value_next hports h t, if_neg hcapture, if_neg hready, if_neg hcapture]
  exact ⟨hvalid, rfl⟩

end HasLogic

end AssemblyPlan

/-- A cycle of a controller and the cycle of the output assembly it drives. What the
    controller is told of valid inputs, and whether a window is committed, is left open. -/
structure Joined (c : LoopControl) (s : Rtl.State) (tick next : LoopTick) : Prop where
  /-- The controller goes on from where this cycle takes it. -/
  follows : ∀ r, tick.before.tick c tick.inputs = .ok r → r = (tick.outputs, next.before)
  once : next.inputs.start = false
  space : tick.inputs.space = true ↔ s.value "space" = 1
  drained : tick.inputs.drained = true ↔ s.value "out_valid" ≠ 1
  enable : s.value "enable" = 1 ↔ tick.before.phase = .first ∨ tick.before.phase = .rest
  load : s.value "load" = 1 ↔ tick.outputs.load = true
  last : s.value "last" = 1 ↔ tick.outputs.last = true

instance {α : Type} [DecidableEq α] (x : Fallible α) (a : α) :
    Decidable (∀ r, x = .ok r → r = a) :=
  match x with
  | .ok r => decidable_of_iff (r = a) ⟨fun h _ hr => Except.ok.inj hr ▸ h, fun h => h r rfl⟩
  | .error _ => .isTrue fun _ h => absurd h (by simp)

instance (c : LoopControl) (s : Rtl.State) (tick next : LoopTick) :
    Decidable (Joined c s tick next) :=
  decidable_of_iff
    ((∀ r, tick.before.tick c tick.inputs = .ok r → r = (tick.outputs, next.before)) ∧
      next.inputs.start = false ∧ (tick.inputs.space = true ↔ s.value "space" = 1) ∧
      (tick.inputs.drained = true ↔ s.value "out_valid" ≠ 1) ∧
      (s.value "enable" = 1 ↔ tick.before.phase = .first ∨ tick.before.phase = .rest) ∧
      (s.value "load" = 1 ↔ tick.outputs.load = true) ∧
      (s.value "last" = 1 ↔ tick.outputs.last = true))
    ⟨fun ⟨h₁, h₂, h₃, h₄, h₅, h₆, h₇⟩ => ⟨h₁, h₂, h₃, h₄, h₅, h₆, h₇⟩,
      fun h => ⟨h.follows, h.once, h.space, h.drained, h.enable, h.load, h.last⟩⟩

/-- A controller, started from an idle state, and an output assembly run together. -/
structure Coupled (c : LoopControl) (τ : Nat → Rtl.State) (ticks : Nat → LoopTick) : Prop where
  idle : (ticks 0).before.phase = .idle
  start : (ticks 0).inputs.start = true
  joined : ∀ t, Joined c (τ (t + 1)) (ticks t) (ticks (t + 1))

/-- The cycles before `t` with the last load of a scan step. -/
def lasts (ticks : Nat → LoopTick) (t : Nat) : List Nat :=
  (List.range t).filter fun k => (ticks k).outputs.last

/-- The windows of the committed last loads before `t`, as the assembly holds them in the
    cycle of the load. -/
def captures (τ : Nat → Rtl.State) (ticks : Nat → LoopTick) (t : Nat) : List Nat :=
  ((lasts ticks t).filter fun k => (τ (k + 1)).value "commit" = 1).map fun k =>
    (τ (k + 1)).value "acc_next"

namespace Coupled

variable {c : LoopControl} {τ : Nat → Rtl.State} {ticks : Nat → LoopTick}
  (hc : ∀ v ∈ c.vars, v.Runs) (h : Coupled c τ ticks)

include hc h

/-- The start takes the controller to its first position and does nothing else. -/
theorem started : (ticks 0).outputs.last = false ∧ (ticks 0).outputs.done = false ∧
    (ticks 1).before = { initial c with phase := .first } := by
  have htick := (h.joined 0).follows _ (tick_start hc h.idle h.start)
  rw [Prod.mk.injEq] at htick
  exact ⟨htick.1 ▸ rfl, htick.1 ▸ rfl, htick.2.symm⟩

/-- A cycle never fails if its state has been reached. -/
theorem tick_ok {run : List LoopTick} {t : Nat} (hrun : Reached c run (ticks (t + 1)).before) :
    (ticks (t + 1)).before.tick c (ticks (t + 1)).inputs
        = .ok ((ticks (t + 1)).outputs, (ticks (t + 2)).before) ∧
      Reached c (run ++ [ticks (t + 1)]) (ticks (t + 2)).before := by
  rcases hrun.tick hc (h.joined t).once with ⟨o, next, htick, hnext⟩
  have heq := (h.joined (t + 1)).follows _ htick
  rw [Prod.mk.injEq] at heq
  rcases heq with ⟨rfl, rfl⟩
  exact ⟨htick, hnext⟩

/-- What the controller has reached behind the start. -/
theorem reached (t : Nat) :
    Reached c ((List.range t).map fun k => ticks (k + 1)) (ticks (t + 1)).before := by
  induction t with
  | zero => exact (h.started hc).2.2 ▸ reached_start hc
  | succ t ih =>
      rw [List.range_succ, List.map_append]
      exact (h.tick_ok hc ih).2

/-- The scan steps that had their last load are the first ones. -/
theorem scan_lasts (t : Nat) : (lasts ticks (t + 1)).map (fun k => (ticks k).outputs.scan)
    = (positions c.scan).take
        ((loads ((List.range t).map fun k => ticks (k + 1))).length / volume c.window) := by
  induction t with
  | zero =>
      rw [lasts, filter_map_range_succ, (h.started hc).1]
      simp [loads]
  | succ t ih =>
      rw [lasts, filter_map_range_succ, ← lasts, ih, List.range_succ, List.map_append,
        List.map_singleton, (h.reached hc t).finished_tick hc (h.joined t).once
          (h.tick_ok hc (h.reached hc t)).1]
      cases hlast : (ticks (t + 1)).outputs.last with
      | true => simp [finished, hlast]
      | false => simp [finished, hlast]

/-- What is known of the cycle of a last load. -/
theorem of_last {t : Nat} (hlast : (ticks t).outputs.last = true) :
    ((τ (t + 1)).value "enable" = 1 ∧ (τ (t + 1)).value "load" = 1) ∧
      (τ (t + 1)).value "space" = 1 := by
  cases t with
  | zero => exact absurd ((h.started hc).1.symm.trans hlast) Bool.false_ne_true
  | succ t =>
      have hrun := h.reached hc t
      have hstart := (h.joined t).once
      have htick := (h.tick_ok hc hrun).1
      have hactive := hrun.active_of_last hc hstart htick hlast
      have hjoined := h.joined (t + 1)
      exact ⟨⟨hjoined.enable.mpr hactive.2, hjoined.load.mpr hactive.1⟩,
        hjoined.space.mp (hrun.space_of_load hc hstart htick hactive.1)⟩

/-- When the controller is done, every scan step had its last load and the register of the
    assembly is empty. -/
theorem of_done {t : Nat} (hdone : (ticks t).outputs.done = true) :
    (lasts ticks t).map (fun k => (ticks k).outputs.scan) = positions c.scan ∧
      (τ (t + 1)).value "out_valid" ≠ 1 := by
  cases t with
  | zero => exact absurd ((h.started hc).2.1.symm.trans hdone) Bool.false_ne_true
  | succ t =>
      have hw : 0 < volume c.window :=
        volume_pos fun v hv => (hc v (List.mem_append_right _ hv)).1
      have hrun := h.reached hc t
      rcases hrun.of_done hc (h.joined t).once (h.tick_ok hc hrun).1 hdone with
        ⟨hloads, hdrained, -⟩
      refine ⟨?_, (h.joined (t + 1)).drained.mp hdrained⟩
      rw [h.scan_lasts hc t, hloads, length_positions, LoopControl.vars, volume_append,
        Nat.mul_div_cancel _ hw, ← length_positions, List.take_length]

end Coupled

/-- What holds of a stage in cycle `t`, whatever happened around it so far. -/
structure Delivers (c : LoopControl) (τ : Nat → Rtl.State) (ticks : Nat → LoopTick) (t : Nat) :
    Prop where
  /-- The controller takes the cycle. -/
  returns : (ticks t).before.tick c (ticks t).inputs
    = .ok ((ticks t).outputs, (ticks (t + 1)).before)
  /-- A window is captured with a committed last load. -/
  capture : (τ (t + 1)).value "capture" = 1 ↔
    (ticks t).outputs.last = true ∧ (τ (t + 1)).value "commit" = 1
  /-- What is in the register stays until it is taken. -/
  kept : (τ (t + 1)).value "r_valid" = 1 → ¬(τ (t + 1)).Moves "out" →
    (τ (t + 2)).value "r_valid" = 1 ∧
      (τ (t + 2)).value "r_value" = (τ (t + 1)).value "r_value"
  /-- The windows taken are the first of those captured. -/
  taken : Rtl.transfers τ "out" t <+: captures τ ticks t
  /-- The stage is not done before every scan step had its last load and every window
      captured with one of them was taken. -/
  done : (ticks t).outputs.done = true →
    Rtl.transfers τ "out" t = captures τ ticks t ∧
      (lasts ticks t).map (fun k => (ticks k).outputs.scan) = positions c.scan

namespace AssemblyPlan

open Rtl

/-- The windows captured are those of the committed last loads. -/
theorem captured_eq_captures {τ : Nat → State} {ticks : Nat → LoopTick} (t : Nat)
    (hcapture : ∀ k, (τ (k + 1)).value "capture" = 1 ↔
      (ticks k).outputs.last = true ∧ (τ (k + 1)).value "commit" = 1) :
    captured τ t = captures τ ticks t := by
  rw [captured, captures, lasts, List.filter_filter]
  refine congrArg _ (List.filter_congr fun k _ => ?_)
  rw [decide_eq_decide.mpr (hcapture k), Bool.decide_and, Bool.decide_eq_true, Bool.and_comm]

/-- A controller and an output assembly that run together neither lose a window nor report
    too early that they are done. -/
theorem make_delivers {p : AssemblyPlan} {w w' : Workshop} {name : String} {m : Module}
    {library : String → Option Module} {Γ : Typing} {τ : Nat → State} {c : LoopControl}
    {ticks : Nat → LoopTick} (hc : ∀ v ∈ c.vars, v.Runs) (hstream : p.shape.kind = .stream)
    (hlacks : w.library.Lacks p.parameters) (hmake : Returns p.make w name w')
    (hm : w'.library.module? name = some m) (h : m.Runs library Γ τ)
    (hreset : ∀ t, (τ (t + 1)).value reset = 0) (hempty : (τ 1).value "r_valid" = 0)
    (hcoupled : Coupled c τ ticks) (t : Nat) : Delivers c τ ticks t := by
  rcases make_built hstream hlacks hmake with ⟨m', hm', hports, hbody⟩
  rcases Option.some.inj (hm.symm.trans hm') with rfl
  have hlogic := hasLogic_of_body hbody
  have hports := hasPorts_of_ports hports hstream
  have hcapture : ∀ k, (τ (k + 1)).value "capture" = 1 ↔
      (ticks k).outputs.last = true ∧ (τ (k + 1)).value "commit" = 1 := by
    intro k
    rw [hlogic.capture_iff hports h (k + 1), (hcoupled.joined k).last]
    exact and_iff_right_of_imp fun hlast => (hcoupled.of_last hc hlast.1).1
  -- A controller only comes to its last load where there is space.
  have hspace : ∀ k, (τ (k + 1)).value "capture" = 1 → (τ (k + 1)).value "space" = 1 :=
    fun k hk => (hcoupled.of_last hc ((hcapture k).mp hk).1).2
  have hfirst : (τ 1).value "out_valid" ≠ 1 := by
    rw [(hlogic.offered_eq hports h 1).1, hempty]
    exact Nat.zero_ne_one
  have haccepted := hlogic.captured_eq hports h t hfirst hreset hspace
  rw [captured_eq_captures t hcapture] at haccepted
  refine ⟨?_, hcapture t, hlogic.kept hports h (t + 1) (hreset t) (hspace t),
    ⟨_, haccepted.symm⟩, fun hdone => ?_⟩
  · cases t with
    | zero =>
        have htick := tick_start hc hcoupled.idle hcoupled.start
        rw [htick, (hcoupled.joined 0).follows _ htick]
    | succ t => exact (hcoupled.tick_ok hc (hcoupled.reached hc t)).1
  -- When it is done no window is left waiting, so all of them have been handed over.
  · have hover := hcoupled.of_done hc hdone
    rw [waiting, if_neg hover.2, List.append_nil] at haccepted
    exact ⟨haccepted.symm, hover.1⟩

/-- Two scan steps, the second of which has to wait until the window of the first is
    taken. -/
def twoSteps : LoopControl := ⟨[⟨"x", 0, 2⟩], [], 1⟩

/-- An output assembly of single bytes. -/
def oneByte : AssemblyPlan := ⟨⟨.stream, .uint 8, [1], [1], 1⟩, 1⟩

/-- Its module. -/
def oneByteWorkshop : Workshop := (oneByte.make.run.run .empty).2

/-- The first window is offered for two cycles and taken in the cycle in which the second
    one is captured. -/
def oneByteTrace : Trace where
  last := 8
  signals :=
    [("reset", [1]), ("enable", [0, 0, 1, 1, 1]), ("load", [0, 0, 1, 0, 1]),
     ("last", [0, 0, 1, 0, 1]), ("commit", [0, 0, 1, 0, 1]), ("result_0", [0, 0, 5, 0, 6]),
     ("out_ready", [0, 0, 0, 0, 1, 0, 1]), ("out_valid", [0, 0, 0, 1, 1, 1, 1]),
     ("out_value", [0, 0, 0, 5, 5, 6, 6, 6, 6]), ("space", [1, 1, 1, 0, 1, 0, 1, 1, 1]),
     ("acc", [0, 0, 0, 5, 5, 6, 6, 6, 6]), ("acc_out", [0, 0, 0, 5, 5, 6, 6, 6, 6]),
     ("acc_next", [0, 0, 5, 5, 6, 6, 6, 6, 6]), ("r_value", [0, 0, 0, 5, 5, 6, 6, 6, 6]),
     ("r_valid", [0, 0, 0, 1, 1, 1, 1]), ("write", [0, 0, 1, 0, 1]),
     ("capture", [0, 0, 1, 0, 1])]
  cells := []

/-- The cycles of the controller. -/
def twoStepsTicks : List LoopTick :=
  [⟨⟨.idle, [0], [], 0⟩, ⟨true, false, true, true⟩, ⟨false, false, false, [0], []⟩⟩,
   ⟨⟨.first, [0], [], 0⟩, ⟨false, true, true, true⟩, ⟨true, true, false, [0], []⟩⟩,
   ⟨⟨.first, [1], [], 0⟩, ⟨false, true, false, false⟩, ⟨false, false, false, [1], []⟩⟩,
   ⟨⟨.first, [1], [], 0⟩, ⟨false, true, true, false⟩, ⟨true, true, false, [1], []⟩⟩,
   ⟨⟨.flush, [0], [], 0⟩, ⟨false, false, false, false⟩, ⟨false, false, false, [0], []⟩⟩,
   ⟨⟨.flush, [0], [], 1⟩, ⟨false, false, true, false⟩, ⟨false, false, false, [0], []⟩⟩,
   ⟨⟨.flush, [0], [], 1⟩, ⟨false, false, true, true⟩, ⟨false, false, true, [0], []⟩⟩]

/-- The controller rests from then on. -/
def twoStepsTick (t : Nat) : LoopTick :=
  twoStepsTicks.getD t
    ⟨⟨.idle, [0], [], 1⟩, ⟨false, false, true, true⟩, ⟨false, false, false, [0], []⟩⟩

/-- Nothing happens anymore once the controller rests. -/
theorem twoSteps_coupled :
    Coupled twoSteps oneByteTrace.state twoStepsTick := by
  have hfirst : ∀ t ∈ List.range 8, Joined twoSteps (oneByteTrace.state (t + 1))
      (twoStepsTick t) (twoStepsTick (t + 1)) := by decide +kernel
  refine ⟨by decide, by decide, fun t => ?_⟩
  rcases Nat.lt_or_ge t 8 with hlt | hge
  · exact hfirst t (List.mem_range.mpr hlt)
  · have hrests : ∀ t, 7 ≤ t → twoStepsTick t = twoStepsTick 7 := fun t ht =>
      (List.getD_eq_default _ _ ht).trans (List.getD_eq_default _ _ (Nat.le_refl 7)).symm
    have hstate : oneByteTrace.state (t + 1) = oneByteTrace.state 8 := by
      rw [← oneByteTrace.state_min (t + 1)]
      exact congrArg oneByteTrace.state (Nat.min_eq_right (Nat.le_succ_of_le hge))
    rw [hrests t (by omega), hrests (t + 1) (by omega), hstate]
    exact hfirst 7 (by decide)

/-- Both windows are captured and taken before the stage is done. -/
theorem make_delivers_twoSteps :
    let τ := oneByteTrace.state
    (∀ t, Delivers twoSteps τ twoStepsTick t) ∧ (twoStepsTick 6).outputs.done = true ∧
      transfers τ "out" 6 = [5, 6] ∧ captures τ twoStepsTick 6 = [5, 6] := by
  intro τ
  have hmade : Returns oneByte.make .empty "WrStream_UInt8_1_1" oneByteWorkshop :=
    returns_of_run (m := oneByte.make) (by decide +kernel)
  have hruns : (oneByteWorkshop.library.moduleD "WrStream_UInt8_1_1").Runs (fun _ => none)
      (oneByteWorkshop.library.moduleD "WrStream_UInt8_1_1").typing τ :=
    Module.Follows.runs (by decide +kernel) (by decide +kernel)
  have hreset := Trace.fromReset (r := oneByteTrace) (by decide) (by decide +kernel)
  have hvars : ∀ v ∈ twoSteps.vars, v.Runs := by
    intro v hv
    rw [List.mem_singleton.mp hv]
    exact ⟨by decide, 1, rfl⟩
  have hdelivers := make_delivers (p := oneByte) (c := twoSteps) hvars rfl
    (fun d hd => absurd hd List.not_mem_nil) hmade
    (Library.module?_eq_moduleD (by decide +kernel)) hruns hreset.later (by decide +kernel)
    twoSteps_coupled
  exact ⟨hdelivers, by decide, by decide +kernel, by decide +kernel⟩

end AssemblyPlan

end StencilRtl
