import StencilRtl.Hardware.Queue
import StencilRtl.Proofs.Rtl.Counters
import StencilRtl.Proofs.Rtl.Making
import StencilRtl.Proofs.Rtl.Traces

/-!
# Queues Keep the Order

What a queue does with the values it accepts, cycle by cycle.

The two pointers count pushes and pops around the slots, and the level is the difference
of the two counts. The flags are registers of their own, updated from the level before the
step, and `Levels` says that they still tell whether the level is zero or the depth: a
push alone is what fills a queue that lacks one value, and a pop alone is what empties one
that has one. A push happens only in a queue that is not full, so the slot it goes to is
none of those that hold a value, and value number `q` is found in slot `q % (depth + 1)`
from its push until its pop. What has been popped has been taken or lies in the register
behind the memory.

So what has been accepted is what has been taken followed by what is waiting, and nothing
else is known of a queue that a consumer could tell.

## Main definitions

* `Queue.HasLogic`: A module has the logic of a queue.
* `Queue.Levels`: What the level and the flags tell.
* `Queue.waiting`: The values in a queue, in the order in which they leave it.
* `Queue.Sound`: All that holds of a queue.

## Theorems

* `Queue.body_ok`, `Queue.make_ok`: The logic is there if it could be built.
* `Queue.HasLogic.levels_hold`: The level counts, and the flags agree with it.
* `Queue.HasLogic.cell_eq`: What the slots hold.
* `Queue.HasLogic.accepted_eq`: Accepted values have been taken or are waiting.
* `Queue.make_sound`: A queue that could be made is sound in every run from a reset.
-/

namespace StencilRtl

namespace FifoGeometry

/-- The sizes of a queue that can be built. -/
structure Fits (g : FifoGeometry) : Prop where
  depth_pos : 0 < g.depth
  slots_eq : g.slots = g.depth + 1
  pointer_room : g.depth < 2 ^ g.pointerWidth
  level_room : g.depth < 2 ^ g.levelWidth

/-- Pointers tell the slots apart, and levels go up to the depth. -/
theorem ofDepth_ok {depth : Nat} {g : FifoGeometry} (h : ofDepth depth = .ok g) :
    g.depth = depth ∧ g.Fits := by
  have hroom := le_two_pow_bitsNeededFor (depth + 1)
  unfold ofDepth at h
  split at h
  · exact absurd h (by simp [malformed])
  · next hpos =>
    rcases Fallible.bind_ok.mp h with ⟨slots, hslots, h⟩
    rcases Fallible.bind_ok.mp h with ⟨levelWidth, hlevel, h⟩
    rcases Fallible.bind_ok.mp hlevel with ⟨values, hvalues, hlevel⟩
    rcases Word.add_eq_ok.mp hslots with ⟨_, rfl⟩
    rcases Word.add_eq_ok.mp hvalues with ⟨_, rfl⟩
    rcases Except.ok.inj hlevel with rfl
    rcases Except.ok.inj h with rfl
    exact ⟨rfl, Nat.pos_of_ne_zero hpos, rfl, hroom, hroom⟩

/-- There is one slot more than values fit, so values that are in the memory together have
    slots of their own. -/
theorem slot_ne {g : FifoGeometry} {q n : Nat} (hq : q < n) (hn : n ≤ q + g.depth) :
    n % (g.depth + 1) ≠ q % (g.depth + 1) := by
  intro hsame
  have hdvd : g.depth + 1 ∣ n - q :=
    Nat.dvd_of_mod_eq_zero (Nat.sub_mod_eq_zero_of_mod_eq hsame)
  have hturn := Nat.le_of_dvd (by omega) hdvd
  omega

end FifoGeometry

namespace Queue

open Rtl

variable {g : FifoGeometry} {width : Nat}

/-- A module has the logic of a queue. -/
structure HasLogic (g : FifoGeometry) (width : Nat) (m : Module) : Prop where
  memory : ("mem", width, g.slots) ∈ m.memories
  writePointer : ("wr_ptr", g.pointerWidth) ∈ m.signals
  readPointer : ("rd_ptr", g.pointerWidth) ∈ m.signals
  level : ("level", g.levelWidth) ∈ m.signals
  empty : ("empty", 1) ∈ m.signals
  full : ("full", 1) ∈ m.signals
  data : ("r_data_out", width) ∈ m.signals
  valid : ("r_valid_out", 1) ∈ m.signals
  push : ("push", 1) ∈ m.signals
  pop : ("pop", 1) ∈ m.signals
  pushes : .assign (.ref "push") (.and (.ref "in_valid") (.not (.ref "full"))) ∈ m.body
  pops : .assign (.ref "pop")
    (.and (.or (.ref "out_ready") (.not (.ref "r_valid_out"))) (.not (.ref "empty"))) ∈ m.body
  ready : .assign (.ref "in_ready") (.not (.ref "full")) ∈ m.body
  value : .assign (.ref "out_value") (.ref "r_data_out") ∈ m.body
  offers : .assign (.ref "out_valid") (.ref "r_valid_out") ∈ m.body
  store : ∃ items, Body.enabled (.element "mem" (.ref "wr_ptr")) (.ref "push") (.ref "in_value")
    = .ok items ∧ ∀ i ∈ items, i ∈ m.body
  load : ∃ items, Body.enabled (.ref "r_data_out") (.ref "pop") (.element "mem" (.ref "rd_ptr"))
    = .ok items ∧ ∀ i ∈ items, i ∈ m.body
  writes : ∃ items, pointer g "wr_ptr" "push" = .ok items ∧ ∀ i ∈ items, i ∈ m.body
  reads : ∃ items, pointer g "rd_ptr" "pop" = .ok items ∧ ∀ i ∈ items, i ∈ m.body
  validity : ∃ items, Body.register "r_valid_out" (.number 0)
    [(.ref "pop", .bit true), (.ref "out_ready", .bit false)] = .ok items ∧ ∀ i ∈ items, i ∈ m.body
  levels : .process .clocked [levelUpdate g] ∈ m.body

/-- The logic is there if it could be built. -/
theorem body_ok {m : Module} (h : body g width = .ok m.body) : HasLogic g width m := by
  have hall : ∀ i ∈ m.body, i ∈ m.body := fun i hi => hi
  have hregister : ∀ name width i, _ → (name, width) ∈ m.signals :=
    fun name width i hpart =>
      Module.signals_of_reg (Body.join_reg h (List.mem_of_getElem? (i := i) hpart))
  have hpush := Body.join_net h (List.mem_of_getElem? (i := 8) rfl)
  have hpop := Body.join_net h (List.mem_of_getElem? (i := 9) rfl)
  -- Each part of the logic is looked up at its place in the body.
  refine ⟨?_, hregister _ _ 1 rfl, hregister _ _ 2 rfl, hregister _ _ 3 rfl, hregister _ _ 4 rfl,
    hregister _ _ 5 rfl, hregister _ _ 6 rfl, hregister _ _ 7 rfl,
    Module.signals_of_wire hpush.1, Module.signals_of_wire hpop.1, hpush.2, hpop.2,
    Body.join_assign h (by simp), Body.join_assign h (by simp), Body.join_assign h (by simp),
    Body.join_part h hall (List.mem_of_getElem? (i := 13) rfl),
    Body.join_part h hall (List.mem_of_getElem? (i := 14) rfl),
    Body.join_part h hall (List.mem_of_getElem? (i := 15) rfl),
    Body.join_part h hall (List.mem_of_getElem? (i := 16) rfl),
    Body.join_part h hall (List.mem_of_getElem? (i := 17) rfl), ?_⟩
  · rcases Body.join_ok h _ (List.mem_cons_self ..) with ⟨own, hown, hsub⟩
    rcases Body.memory_ok hown with ⟨_, rfl⟩
    exact Module.memories_of_memory (hsub _ (List.mem_singleton_self _))
  · rcases Body.join_ok h _ (List.mem_of_getElem? (i := 18) rfl) with ⟨own, hown, hsub⟩
    rcases Except.ok.inj hown with rfl
    exact hsub _ (List.mem_singleton_self _)

/-- A branch that updates one register, sets a flag and updates another flag under a
    condition. -/
theorem execute_flags {Γ : Typing} {s : State} {a b c : String} {x y z e : Rtl.Expr}
    (hab : a ≠ b) (hac : a ≠ c) (hbc : b ≠ c) :
    let after := (Stmt.executeAll Γ ⟨s, s⟩ [.update (.ref a) x, .update (.ref b) y,
      .when e [.update (.ref c) z]]).after
    after.value a = x.assigned Γ s (Γ.width a) ∧ after.value b = y.assigned Γ s (Γ.width b) ∧
      after.value c = if e.own Γ s ≠ 0 then z.assigned Γ s (Γ.width c) else s.value c := by
  simp only [Stmt.executeAll, Stmt.execute, Stmt.executeFirst, Stmt.executeElse, Stmt.when,
    State.put, State.setValue]
  by_cases hguard : e.own Γ s ≠ 0
  · simp only [if_pos hguard, Function.update_self, Function.update_of_ne hac,
      Function.update_of_ne hab, Function.update_of_ne hbc, and_self]
  · simp only [if_neg hguard, Function.update_self, Function.update_of_ne hac.symm,
      Function.update_of_ne hab, Function.update_of_ne hbc.symm, and_self]

theorem assigned_one {Γ : Typing} {s : State} : (Expr.number 1).assigned Γ s 1 = 1 := by
  rw [Expr.assigned, Expr.value, Expr.isSigned]
  rfl

namespace HasLogic

variable {library : String → Option Module} {m : Module} {Γ : Typing} {τ : Nat → State}

section

variable (hlogic : HasLogic g width m) (h : m.Runs library Γ τ)

include hlogic h

theorem push_iff (hin : m.Carries "in" width) (t : Nat) : (τ t).value "push" = 1 ↔
    (τ t).value "in_valid" = 1 ∧ ¬(τ t).value "full" = 1 :=
  h.bit_iff hlogic.push hlogic.pushes ((h.isBit hin.valid t).and (h.isBit hlogic.full t).not)

theorem pop_iff (hout : m.Carries "out" width) (t : Nat) : (τ t).value "pop" = 1 ↔
    ((τ t).value "out_ready" = 1 ∨ ¬(τ t).value "r_valid_out" = 1) ∧ ¬(τ t).value "empty" = 1 :=
  h.bit_iff hlogic.pop hlogic.pops
    (((h.isBit hout.ready t).or (h.isBit hlogic.valid t).not).and (h.isBit hlogic.empty t).not)

/-- A value is accepted when it is pushed. -/
theorem accepts_iff (hin : m.Carries "in" width) (t : Nat) :
    (τ t).Moves "in" ↔ (τ t).value "push" = 1 := by
  have hready : (τ t).value "in_ready" = 1 ↔ ¬(τ t).value "full" = 1 :=
    h.bit_iff hin.ready hlogic.ready (h.isBit hlogic.full t).not
  rw [hlogic.push_iff h hin, ← hready]
  rfl

/-- A value is taken from the register when it is valid and wanted. -/
theorem takes_iff (hout : m.Carries "out" width) (t : Nat) :
    (τ t).Moves "out" ↔ (τ t).value "r_valid_out" = 1 ∧ (τ t).value "out_ready" = 1 := by
  have hoffered : (τ t).value "out_valid" = 1 ↔ (τ t).value "r_valid_out" = 1 :=
    h.bit_iff hout.valid hlogic.offers (h.isBit hlogic.valid t)
  rw [← hoffered]
  rfl

theorem taken_eq (hout : m.Carries "out" width) (t : Nat) :
    (τ t).value "out_value" = (τ t).value "r_data_out" := by
  have hwidth : Γ.width "out_value" = width := h.width_eq hout.value
  rw [h.assigned hlogic.value, hwidth]
  exact Expr.assigned_ref (h.value_lt hlogic.data t)

/-- The level and the flags are what their process makes of them. -/
theorem levels_next (t : Nat) : ∀ name ∈ ["level", "empty", "full"],
    (τ (t + 1)).value name
      = (Stmt.executeAll Γ ⟨τ t, τ t⟩ [levelUpdate g]).after.value name := by
  intro name hname
  refine (h.holds t _ hlogic.levels name ?_).1
  simp only [levelUpdate, Stmt.when, Stmt.targetsOfAll, Stmt.targets, Stmt.targetsOfBranches,
    Expr.target?, Option.toList]
  simp only [List.mem_cons, List.not_mem_nil, or_false] at hname
  rcases hname with rfl | rfl | rfl <;> simp

variable (hreset : FromReset τ) (hclear : (reset, 1) ∈ m.signals)

include hreset hclear

/-- After the reset the queue is empty. -/
theorem levels_first : (τ 1).value "level" = 0 ∧ (τ 1).value "empty" = 1 ∧
    (τ 1).value "full" = 0 := by
  have hnext := hlogic.levels_next h 0
  have hheld := h.reset_held hreset hclear
  have hempty := h.width_eq hlogic.empty
  rw [hnext _ (by simp), hnext _ (by simp), hnext _ (by simp)]
  simp only [levelUpdate, Stmt.executeAll, Stmt.execute, Stmt.executeFirst, if_pos hheld, State.put,
    State.setValue, Expr.assigned_zero, hempty, assigned_one]
  refine ⟨?_, ?_, Function.update_self ..⟩
  · rw [Function.update_of_ne (by decide), Function.update_of_ne (by decide), Function.update_self]
  · rw [Function.update_of_ne (by decide), Function.update_self]

variable (hfits : g.Fits)

include hfits

/-- The level rises with a push alone. -/
theorem levels_rise {t : Nat} (hpush : (τ (t + 1)).value "push" = 1)
    (hpop : ¬(τ (t + 1)).value "pop" = 1) :
    (τ (t + 1 + 1)).value "level" = ((τ (t + 1)).value "level" + 1) % 2 ^ g.levelWidth ∧
      (τ (t + 1 + 1)).value "empty" = 0 ∧ (τ (t + 1 + 1)).value "full"
        = if (τ (t + 1)).value "level" = g.depth - 1 then 1 else (τ (t + 1)).value "full" := by
  have hnext := hlogic.levels_next h (t + 1)
  have hnone := h.reset_not_held hreset hclear t
  have hrise := ((h.isBit hlogic.push (t + 1)).and (h.isBit hlogic.pop (t + 1)).not).own_ne_zero.mpr
    ⟨hpush, hpop⟩
  have hroom := hfits.level_room
  have hbelow : g.depth - 1 < 2 ^ g.levelWidth := by omega
  -- Whether the level is the last one below the depth is decided before it rises.
  have hlast : (Expr.hasValue "level" g.levelWidth (g.depth - 1)).own Γ (τ (t + 1)) ≠ 0 ↔ _ :=
    (Expr.isBit_hasValue hbelow).own_ne_zero
  have hflags := execute_flags (Γ := Γ) (s := τ (t + 1)) (a := "level") (b := "empty")
    (c := "full") (x := .plus "level" g.levelWidth 1) (y := .number 0) (z := .number 1)
    (e := .hasValue "level" g.levelWidth (g.depth - 1)) (by decide) (by decide) (by decide)
  -- The reset is not held and only a push happens, so the first branch behind it is taken.
  rw [Stmt.executeAll, Stmt.executeAll, levelUpdate, Stmt.execute, Stmt.executeFirst, if_neg hnone,
    Stmt.executeFirst, if_pos hrise] at hnext
  rw [hnext _ (by simp), hnext _ (by simp), hnext _ (by simp), hflags.1, hflags.2.1, hflags.2.2,
    h.width_eq hlogic.level, h.width_eq hlogic.full, Expr.assigned_plus (h.width_eq hlogic.level),
    Expr.assigned_zero, assigned_one]
  exact ⟨rfl, rfl, if_congr hlast rfl rfl⟩

/-- It falls with a pop alone. -/
theorem levels_fall {t : Nat} (hpop : (τ (t + 1)).value "pop" = 1)
    (hpush : ¬(τ (t + 1)).value "push" = 1) (hpos : 0 < (τ (t + 1)).value "level") :
    (τ (t + 1 + 1)).value "level" = (τ (t + 1)).value "level" - 1 ∧
      (τ (t + 1 + 1)).value "full" = 0 ∧ (τ (t + 1 + 1)).value "empty"
        = if (τ (t + 1)).value "level" = 1 then 1 else (τ (t + 1)).value "empty" := by
  have hnext := hlogic.levels_next h (t + 1)
  have hnone := h.reset_not_held hreset hclear t
  -- Of the two updates of the level only the second one is due.
  have hrise := mt ((h.isBit hlogic.push (t + 1)).and
    (h.isBit hlogic.pop (t + 1)).not).own_ne_zero.mp fun hc => hpush hc.1
  have hfall := ((h.isBit hlogic.pop (t + 1)).and (h.isBit hlogic.push (t + 1)).not).own_ne_zero.mpr
    ⟨hpop, hpush⟩
  have hroom := hfits.level_room
  have hdepth := hfits.depth_pos
  have hone : 1 < 2 ^ g.levelWidth := by omega
  have hlast : (Expr.hasValue "level" g.levelWidth 1).own Γ (τ (t + 1)) ≠ 0 ↔ _ :=
    (Expr.isBit_hasValue hone).own_ne_zero
  have hflags := execute_flags (Γ := Γ) (s := τ (t + 1)) (a := "level") (b := "full")
    (c := "empty") (x := .binary .sub (.ref "level") (.literal g.levelWidth 1)) (y := .number 0)
    (z := .number 1) (e := .hasValue "level" g.levelWidth 1) (by decide) (by decide) (by decide)
  rw [Stmt.executeAll, Stmt.executeAll, levelUpdate, Stmt.execute, Stmt.executeFirst, if_neg hnone,
    Stmt.executeFirst, if_neg hrise, Stmt.executeFirst, if_pos hfall] at hnext
  rw [hnext _ (by simp), hnext _ (by simp), hnext _ (by simp), hflags.1, hflags.2.1, hflags.2.2,
    h.width_eq hlogic.level, h.width_eq hlogic.empty,
    Expr.assigned_minus (h.width_eq hlogic.level) hpos (h.value_lt hlogic.level (t + 1)),
    Expr.assigned_zero, assigned_one]
  exact ⟨rfl, rfl, if_congr hlast rfl rfl⟩

omit hfits

/-- Otherwise it stays. -/
theorem levels_stay {t : Nat}
    (hboth : (τ (t + 1)).value "push" = 1 ↔ (τ (t + 1)).value "pop" = 1) :
    ∀ name ∈ ["level", "empty", "full"], (τ (t + 1 + 1)).value name = (τ (t + 1)).value name := by
  intro name hname
  have hnone := h.reset_not_held hreset hclear t
  have hrise := mt ((h.isBit hlogic.push (t + 1)).and
    (h.isBit hlogic.pop (t + 1)).not).own_ne_zero.mp fun hc => hc.2 (hboth.mp hc.1)
  have hfall := mt ((h.isBit hlogic.pop (t + 1)).and
    (h.isBit hlogic.push (t + 1)).not).own_ne_zero.mp fun hc => hc.2 (hboth.mpr hc.1)
  rw [hlogic.levels_next h (t + 1) name hname, Stmt.executeAll, Stmt.executeAll, levelUpdate,
    Stmt.execute, Stmt.executeFirst, if_neg hnone, Stmt.executeFirst, if_neg hrise,
    Stmt.executeFirst, if_neg hfall, Stmt.executeFirst, Stmt.executeElse]

theorem valid_first : (τ 1).value "r_valid_out" = 0 := by
  rcases hlogic.validity with ⟨items, hitems, hsub⟩
  rw [h.register_first hreset hclear hitems hsub, Expr.assigned_zero]

/-- A pop fills the register, and otherwise a consumer empties it. -/
theorem valid_next (hout : m.Carries "out" width) (t : Nat) : (τ (t + 1 + 1)).value "r_valid_out"
    = if (τ (t + 1)).value "pop" = 1 then 1
      else if (τ (t + 1)).value "out_ready" = 1 then 0 else (τ (t + 1)).value "r_valid_out" := by
  rcases hlogic.validity with ⟨items, hitems, hsub⟩
  have hbit : ∀ b, (Expr.bit b).assigned Γ (τ (t + 1)) 1 = if b then 1 else 0 := by
    intro b
    rw [Expr.bit, Expr.assigned, Expr.isSigned, Expr.value, Expr.extend_false]
    cases b <;> rfl
  rw [h.register_later hreset hclear hitems hsub, State.firstHolding, State.firstHolding,
    State.firstHolding, h.width_eq hlogic.valid, hbit, hbit]
  exact if_congr (h.isBit hlogic.pop (t + 1)).own_ne_zero rfl
    (if_congr (h.isBit hout.ready (t + 1)).own_ne_zero rfl rfl)

omit hreset hclear

theorem data_next (t : Nat) : (τ (t + 1)).value "r_data_out"
    = if (τ t).value "pop" = 1 then (τ t).cell "mem" ((τ t).value "rd_ptr") % 2 ^ width
      else (τ t).value "r_data_out" := by
  rcases hlogic.load with ⟨items, hitems, hsub⟩
  rw [h.enabled_next hitems hsub, State.firstHolding, State.firstHolding, h.width_eq hlogic.data,
    Expr.assigned_element (h.memory_eq hlogic.memory).1]
  exact if_congr (h.isBit hlogic.pop t).own_ne_zero rfl rfl

end

end HasLogic

/-- What the level and the flags of a queue tell after some cycles. -/
structure Levels (g : FifoGeometry) (τ : Nat → State) (t : Nat) : Prop where
  level_eq : (τ (t + 1)).value "level" + counted τ "pop" t = counted τ "push" t
  level_le : (τ (t + 1)).value "level" ≤ g.depth
  empty_iff : (τ (t + 1)).value "empty" = 1 ↔ (τ (t + 1)).value "level" = 0
  full_iff : (τ (t + 1)).value "full" = 1 ↔ (τ (t + 1)).value "level" = g.depth

/-- The values waiting in a queue: the one in the register, then those in the memory. -/
def waiting (g : FifoGeometry) (s : State) : List Nat :=
  (if s.value "r_valid_out" = 1 then [s.value "r_data_out"] else [])
    ++ (List.range (s.value "level")).map fun i =>
      s.cell "mem" ((s.value "rd_ptr" + i) % (g.depth + 1))

namespace HasLogic

variable {library : String → Option Module} {m : Module} {Γ : Typing} {τ : Nat → State}

section

variable (hlogic : HasLogic g width m) (hfits : g.Fits) (h : m.Runs library Γ τ)
  (hreset : FromReset τ) (hclear : (reset, 1) ∈ m.signals)
  (hin : m.Carries "in" width) (hout : m.Carries "out" width)

include hlogic h

/-- As many values have been accepted as pushed. -/
theorem length_accepted (hin : m.Carries "in" width) (t : Nat) :
    (transfers τ "in" t).length = counted τ "push" t := by
  induction t with
  | zero => rfl
  | succ t ih =>
      rw [length_transfers_succ, counted_succ, ih]
      exact congrArg _ (if_congr (hlogic.accepts_iff h hin (t + 1)) rfl rfl)

include hfits hreset hclear

/-- The pointers go around the slots. -/
theorem pointers_eq (t : Nat) : (τ (t + 1)).value "wr_ptr" = counted τ "push" t % (g.depth + 1) ∧
    (τ (t + 1)).value "rd_ptr" = counted τ "pop" t % (g.depth + 1) := by
  rcases hlogic.writes with ⟨witems, hwitems, hwsub⟩
  rcases hlogic.reads with ⟨ritems, hritems, hrsub⟩
  exact ⟨h.cyclicCounter_counts hreset hclear hwitems hwsub hlogic.writePointer hlogic.push
      hfits.pointer_room (counted_zero _) (counted_succ _) t,
    h.cyclicCounter_counts hreset hclear hritems hrsub hlogic.readPointer hlogic.pop
      hfits.pointer_room (counted_zero _) (counted_succ _) t⟩

include hin hout

/-- The level and the flags tell how many values are in the memory. -/
theorem levels_hold (t : Nat) : Levels g τ t := by
  have hdepth := hfits.depth_pos
  induction t with
  | zero =>
      rcases hlogic.levels_first h hreset hclear with ⟨hlevel, hempty, hfull⟩
      refine ⟨?_, ?_, ?_, ?_⟩
      · rw [hlevel, counted_zero, counted_zero]
      · rw [hlevel]
        exact Nat.zero_le _
      · rw [hlevel, hempty]
        exact iff_of_true rfl rfl
      · rw [hlevel, hfull]
        omega
  | succ t ih =>
      have hpush := hlogic.push_iff h hin (t + 1)
      have hpop := hlogic.pop_iff h hout (t + 1)
      have hlevel := ih.level_eq
      have hle := ih.level_le
      have hempty := ih.empty_iff
      have hfull := ih.full_iff
      -- With a push and a pop at once, or neither, nothing changes.
      by_cases hboth : (τ (t + 1)).value "push" = 1 ↔ (τ (t + 1)).value "pop" = 1
      · have hstay := hlogic.levels_stay h hreset hclear hboth
        refine ⟨?_, ?_, ?_, ?_⟩
        · rw [hstay _ (by simp), counted_succ, counted_succ, if_congr hboth rfl rfl]
          omega
        · rw [hstay _ (by simp)]
          exact hle
        · rw [hstay _ (by simp), hstay _ (by simp)]
          exact hempty
        · rw [hstay _ (by simp), hstay _ (by simp)]
          exact hfull
      · by_cases hin' : (τ (t + 1)).value "push" = 1
        · have hnot : ¬(τ (t + 1)).value "pop" = 1 := fun hc => hboth ⟨fun _ => hc, fun _ => hin'⟩
          have hroom := hfits.level_room
          -- A push alone comes only while the memory is not full,
          have hbelow : (τ (t + 1)).value "level" ≠ g.depth := mt hfull.mpr (hpush.mp hin').2
          rcases hlogic.levels_rise h hreset hclear hfits hin' hnot with ⟨hlevel', hempty', hfull'⟩
          rw [Nat.mod_eq_of_lt (by omega)] at hlevel'
          refine ⟨?_, ?_, ?_, ?_⟩
          · rw [hlevel', counted_succ, counted_succ, if_pos hin', if_neg hnot]
            omega
          · omega
          · omega
          · rw [hlevel', hfull']
            split <;> omega
        · have hout' : (τ (t + 1)).value "pop" = 1 := by
            by_contra hc
            exact hboth (iff_of_false hin' hc)
          -- and a pop alone only while it is not empty.
          have hpos : (τ (t + 1)).value "level" ≠ 0 := mt hempty.mpr (hpop.mp hout').2
          rcases hlogic.levels_fall h hreset hclear hfits hout' hin' (by omega)
            with ⟨hlevel', hfull', hempty'⟩
          refine ⟨?_, ?_, ?_, ?_⟩
          · rw [hlevel', counted_succ, counted_succ, if_pos hout', if_neg hin']
            omega
          · omega
          · rw [hlevel', hempty']
            split <;> omega
          · omega

/-- The memory holds the values that have been pushed and not popped, each in the slot it
    was put into. -/
theorem cell_eq (t : Nat) : ∀ q < counted τ "push" t, counted τ "pop" t ≤ q →
    (τ (t + 1)).cell "mem" (q % (g.depth + 1)) = (transfers τ "in" t).getD q 0 := by
  -- Induction on the cycles. A push never goes to the slot of a value that is still there.
  induction t with
  | zero => exact fun q hq => absurd hq (Nat.not_lt_zero q)
  | succ t ih =>
      intro q hq hle
      rcases hlogic.store with ⟨items, hitems, hsub⟩
      have hwrite := (hlogic.pointers_eq hfits h hreset hclear t).1
      have hlength := hlogic.length_accepted h hin t
      have hlevels := hlogic.levels_hold hfits h hreset hclear hin hout t
      have hlevel := hlevels.level_eq
      have hbound := hlevels.level_le
      have hslot : ∀ n, n % (g.depth + 1) < g.slots := by
        intro n
        rw [hfits.slots_eq]
        exact Nat.mod_lt _ (Nat.succ_pos _)
      rw [counted_succ] at hq hle
      rw [h.stored_next hitems hsub hlogic.memory hlogic.push (t + 1)
        (by rw [hwrite]; exact hslot _)
        (h.value_lt hin.value (t + 1)) (hslot q), hwrite, transfers_succ,
        if_congr (hlogic.accepts_iff h hin (t + 1)) rfl rfl]
      by_cases hpush : (τ (t + 1)).value "push" = 1
      · rw [if_pos hpush] at hq
        rw [if_pos hpush]
        by_cases hlive : q = counted τ "push" t
        · rw [if_pos ⟨hpush, by rw [hlive]⟩, hlive, ← hlength]
          exact (getD_concat_length _ _).symm
        · have hother : counted τ "push" t % (g.depth + 1) ≠ q % (g.depth + 1) :=
            FifoGeometry.slot_ne (by omega) (by omega)
          rw [if_neg fun hc => hother hc.2, List.getD_append _ _ _ _ (by omega)]
          exact ih q (by omega) (by omega)
      · rw [if_neg hpush] at hq
        rw [if_neg fun hc => hpush hc.1, if_neg hpush, List.append_nil]
        exact ih q (by omega) (by omega)

/-- What is popped next has been pushed before. -/
theorem popped_lt_pushed {t : Nat} (hpops : (τ (t + 1)).value "pop" = 1) :
    counted τ "pop" t < counted τ "push" t := by
  have hlevels := hlogic.levels_hold hfits h hreset hclear hin hout t
  have hlevel := hlevels.level_eq
  have hpos : (τ (t + 1)).value "level" ≠ 0 :=
    mt hlevels.empty_iff.mpr ((hlogic.pop_iff h hout (t + 1)).mp hpops).2
  omega

/-- A pop loads the oldest value that has not been popped. -/
theorem loaded_eq {t : Nat} (hpops : (τ (t + 1)).value "pop" = 1) :
    (τ (t + 1)).cell "mem" ((τ (t + 1)).value "rd_ptr") % 2 ^ width
      = (transfers τ "in" t).getD (counted τ "pop" t) 0 := by
  have hmore := hlogic.popped_lt_pushed hfits h hreset hclear hin hout hpops
  have hlength := hlogic.length_accepted h hin t
  have hsmall : (transfers τ "in" t).getD (counted τ "pop" t) 0 < 2 ^ width := by
    rw [List.getD_eq_getElem _ _ (by omega)]
    exact transfers_lt h hin t _ (List.getElem_mem _)
  rw [(hlogic.pointers_eq hfits h hreset hclear t).2,
    hlogic.cell_eq hfits h hreset hclear hin hout t _ hmore (Nat.le_refl _),
    Nat.mod_eq_of_lt hsmall]

/-- What has been popped has been taken or is in the register. -/
theorem popped_eq (t : Nat) : transfers τ "out" t
    ++ (if (τ (t + 1)).value "r_valid_out" = 1 then [(τ (t + 1)).value "r_data_out"] else [])
      = (transfers τ "in" t).take (counted τ "pop" t) := by
  induction t with
  | zero =>
      rw [hlogic.valid_first h hreset hclear, if_neg (by decide), transfers_zero, transfers_zero,
        List.take_nil, List.append_nil]
  | succ t ih =>
      have hpop := hlogic.pop_iff h hout (t + 1)
      have hlevels := hlogic.levels_hold hfits h hreset hclear hin hout t
      have hlevel := hlevels.level_eq
      have hlength := hlogic.length_accepted h hin t
      have htakes := hlogic.takes_iff h hout (t + 1)
      have hold : ∀ n ≤ counted τ "push" t, (transfers τ "in" (t + 1)).take n
          = (transfers τ "in" t).take n := by
        intro n hn
        rw [transfers_succ, List.take_append_of_le_length (by omega)]
      have htaken : transfers τ "out" (t + 1) = transfers τ "out" t
          ++ if (τ (t + 1)).value "r_valid_out" = 1 ∧ (τ (t + 1)).value "out_ready" = 1 then
              [(τ (t + 1)).value "r_data_out"] else [] := by
        rw [transfers_succ, ← hlogic.taken_eq h hout]
        exact congrArg _ (if_congr htakes rfl rfl)
      rw [htaken, hlogic.valid_next h hreset hclear hout, hlogic.data_next h (t + 1), counted_succ]
      by_cases hpops : (τ (t + 1)).value "pop" = 1
      · have hmore := hlogic.popped_lt_pushed hfits h hreset hclear hin hout hpops
        have hloaded := hlogic.loaded_eq hfits h hreset hclear hin hout hpops
        -- A pop waits until the register is empty or its value is taken.
        have hgone : (if (τ (t + 1)).value "r_valid_out" = 1 ∧
              (τ (t + 1)).value "out_ready" = 1 then
            [(τ (t + 1)).value "r_data_out"] else [])
              = if (τ (t + 1)).value "r_valid_out" = 1 then [(τ (t + 1)).value "r_data_out"]
                else [] :=
          if_congr (and_iff_left_of_imp fun hvalid =>
            (hpop.mp hpops).1.resolve_right (not_not_intro hvalid)) rfl rfl
        rw [if_pos hpops, if_pos hpops, if_pos hpops, if_pos rfl, hgone, ih, hloaded,
          hold _ (by omega), List.take_succ_eq_append_getElem (by omega),
          List.getD_eq_getElem _ _ (by omega)]
      · rw [if_neg hpops, if_neg hpops, if_neg hpops, Nat.add_zero (counted τ "pop" t),
          hold _ (by omega), ← ih, List.append_assoc]
        refine congrArg _ ?_
        by_cases hready : (τ (t + 1)).value "out_ready" = 1
        · rw [if_pos hready, if_neg (by decide : ¬0 = 1), List.append_nil]
          exact if_congr (and_iff_left hready) rfl rfl
        · rw [if_neg hready, if_neg fun hc => hready hc.2, List.nil_append]

/-- What has been accepted has been taken or is waiting, in this order. -/
theorem accepted_eq (t : Nat) :
    transfers τ "in" t = transfers τ "out" t ++ waiting g (τ (t + 1)) := by
  have hlevel := (hlogic.levels_hold hfits h hreset hclear hin hout t).level_eq
  have hlength := hlogic.length_accepted h hin t
  have hread := (hlogic.pointers_eq hfits h hreset hclear t).2
  -- The cells from the read pointer on are what was accepted and not yet popped.
  have hstored : ((List.range ((τ (t + 1)).value "level")).map fun i =>
      (τ (t + 1)).cell "mem" (((τ (t + 1)).value "rd_ptr" + i) % (g.depth + 1)))
        = (transfers τ "in" t).drop (counted τ "pop" t) := by
    refine List.ext_getElem ?_ fun i hi hi' => ?_
    · rw [List.length_map, List.length_range, List.length_drop]
      omega
    · rw [List.length_map, List.length_range] at hi
      rw [List.getElem_map, List.getElem_range, hread, Nat.mod_add_mod, List.getElem_drop,
        hlogic.cell_eq hfits h hreset hclear hin hout t _ (by omega) (by omega),
        List.getD_eq_getElem]
  rw [waiting, ← List.append_assoc, hlogic.popped_eq hfits h hreset hclear hin hout t, hstored,
    List.take_append_drop]

end

end HasLogic

/-- What holds of a queue some cycles after the reset. -/
structure Sound (g : FifoGeometry) (width : Nat) (τ : Nat → State) (t : Nat) : Prop
    extends Levels g τ t where
  write_lt : (τ (t + 1)).value "wr_ptr" < g.depth + 1
  read_lt : (τ (t + 1)).value "rd_ptr" < g.depth + 1
  write_eq : (τ (t + 1)).value "wr_ptr"
    = ((τ (t + 1)).value "rd_ptr" + (τ (t + 1)).value "level") % (g.depth + 1)
  /-- The largest value each register may have to hold fits it. -/
  room : g.depth < 2 ^ g.pointerWidth ∧ g.depth < 2 ^ g.levelWidth
  registers : ∀ d ∈ [("wr_ptr", g.pointerWidth), ("rd_ptr", g.pointerWidth),
    ("level", g.levelWidth), ("empty", 1), ("full", 1), ("r_valid_out", 1), ("r_data_out", width)],
      (τ (t + 1)).value d.1 < 2 ^ d.2
  cells : ∀ i < g.depth + 1, (τ (t + 1)).cell "mem" i < 2 ^ width
  pushed_eq : counted τ "push" t = (transfers τ "in" t).length
  accepted_eq : transfers τ "in" t = transfers τ "out" t ++ waiting g (τ (t + 1))
  taken_before : transfers τ "out" t <+: transfers τ "in" t

/-- A module with the logic of a queue is a queue. -/
theorem HasLogic.sound {library : String → Option Module} {m : Module} {Γ : Typing}
    {τ : Nat → State} (hlogic : HasLogic g width m) (hfits : g.Fits) (h : m.Runs library Γ τ)
    (hreset : FromReset τ) (hclear : (reset, 1) ∈ m.signals) (hin : m.Carries "in" width)
    (hout : m.Carries "out" width) (t : Nat) : Sound g width τ t := by
  have hlevels := hlogic.levels_hold hfits h hreset hclear hin hout t
  have hlevel := hlevels.level_eq
  rcases hlogic.pointers_eq hfits h hreset hclear t with ⟨hwrite, hread⟩
  have haccepted := hlogic.accepted_eq hfits h hreset hclear hin hout t
  -- Pointers go around the slots, so their distance is the level.
  refine ⟨hlevels, ?_, ?_, ?_, ⟨hfits.pointer_room, hfits.level_room⟩, ?_, ?_,
    (hlogic.length_accepted h hin t).symm, haccepted, ⟨_, haccepted.symm⟩⟩
  · rw [hwrite]
    exact Nat.mod_lt _ (Nat.succ_pos _)
  · rw [hread]
    exact Nat.mod_lt _ (Nat.succ_pos _)
  · rw [hwrite, hread, Nat.mod_add_mod, Nat.add_comm (counted τ "pop" t), hlevel]
  · intro d hd
    simp only [List.mem_cons, List.not_mem_nil, or_false] at hd
    rcases hd with rfl | rfl | rfl | rfl | rfl | rfl | rfl
    · exact h.value_lt hlogic.writePointer (t + 1)
    · exact h.value_lt hlogic.readPointer (t + 1)
    · exact h.value_lt hlogic.level (t + 1)
    · exact h.value_lt hlogic.empty (t + 1)
    · exact h.value_lt hlogic.full (t + 1)
    · exact h.value_lt hlogic.valid (t + 1)
    · exact h.value_lt hlogic.data (t + 1)
  · rw [← hfits.slots_eq]
    exact ((h.typed (t + 1)).memory _ hlogic.memory).2.2

/-- The module of a queue could be made. -/
theorem make_ok {c : Component} {depth : Nat} {shape : Shape} {w w' : Workshop} {name : String}
    (hshape : c.portShape "in" = .ok shape)
    (hlacks : w.library.Lacks (.queue shape.elem shape.extents depth))
    (h : Returns (make c depth) w name w') : ∃ g m, FifoGeometry.ofDepth depth = .ok g ∧
      w'.library.module? name = some m ∧ c.modulePorts = .ok m.ports ∧
        body g (shape.extents.prod * shape.elem.bits) = .ok m.body := by
  unfold make at h
  rcases returns_lift_bind.mp h with ⟨shape', hshape', hrest⟩
  rcases Except.ok.inj (hshape.symm.trans hshape') with rfl
  rcases returns_lift_bind.mp hrest with ⟨g, hg, hneeds⟩
  generalize s!"FIFO_{shape.typeName}_{depth}" = chosen at hneeds
  rcases Making.returns_of_lacks hlacks hneeds with ⟨hfree, hmade⟩
  rcases returns_lift_bind.mp hmade with ⟨ports, hports, hwidths⟩
  rcases returns_lift_bind.mp hwidths with ⟨width, hwidth, hbodies⟩
  rcases returns_lift_bind.mp hbodies with ⟨items, hitems, hdefines⟩
  rcases Making.module_of_define hfree hdefines with ⟨rfl, hmodule⟩
  rcases Shape.dataWidth_ok hwidth with rfl
  exact ⟨g, ⟨name, ports, items⟩, hg, hmodule, hports, hitems⟩

/-- Whatever is offered and wanted, a queue keeps its books from the reset on, and the
    values are taken in the order in which they were accepted. -/
theorem make_sound {c : Component} {depth : Nat} {g : FifoGeometry} {shape : Shape}
    {w w' : Workshop} {name : String} {m : Module} {Γ : Typing} {τ : Nat → State}
    {library : String → Option Module} (hdepth : FifoGeometry.ofDepth depth = .ok g)
    (hin : c.portShape "in" = .ok shape) (hout : c.portShape "out" = .ok shape)
    (hstream : shape.kind = .stream)
    (hlacks : w.library.Lacks (.queue shape.elem shape.extents depth))
    (hmake : Returns (make c depth) w name w') (hm : w'.library.module? name = some m)
    (h : m.Runs library Γ τ) (hreset : FromReset τ) (t : Nat) :
    g.depth = depth ∧ Sound g (shape.extents.prod * shape.elem.bits) τ t := by
  rcases make_ok hin hlacks hmake with ⟨g', m', hdepth', hm', hports, hbody⟩
  rcases Except.ok.inj (hdepth.symm.trans hdepth') with rfl
  rcases Option.some.inj (hm.symm.trans hm') with rfl
  rcases FifoGeometry.ofDepth_ok hdepth with ⟨hg, hfits⟩
  exact ⟨hg, (body_ok hbody).sound hfits h hreset (Component.reset_of_modulePorts hports)
    (Component.carries_of_modulePorts hports hin hstream)
    (Component.carries_of_modulePorts hports hout hstream) t⟩

/-- A queue for a single byte. -/
def single : Component :=
  ⟨"FIFO_single", .queue 1, [("in", .stream (.uint 8) [1])], [("out", .stream (.uint 8) [1])]⟩

/-- Its module. -/
def singleWorkshop : Workshop := ((make single 1).run.run .empty).2

/-- Two values are sent through it. The second one has to wait until the first one has
    moved on into the register, and both leave one after the other. -/
def singleTrace : Trace where
  last := 6
  signals :=
    [("reset", [1]), ("in_value", [0, 5, 6, 6]), ("in_valid", [0, 1, 1, 1]),
     ("in_ready", [1, 1, 0, 1, 0, 1, 1]), ("out_ready", [0, 0, 0, 0, 1, 1, 1]),
     ("out_value", [0, 0, 0, 5, 5, 6, 6]), ("out_valid", [0, 0, 0, 1, 1, 1, 0]),
     ("r_data_out", [0, 0, 0, 5, 5, 6, 6]), ("r_valid_out", [0, 0, 0, 1, 1, 1, 0]),
     ("wr_ptr", [0, 0, 1, 1, 0]), ("rd_ptr", [0, 0, 0, 1, 1]), ("level", [0, 0, 1, 0, 1]),
     ("empty", [1, 1, 0, 1, 0, 1, 1]), ("full", [0, 0, 1, 0, 1]), ("push", [0, 1, 0, 1]),
     ("pop", [0, 0, 1, 0, 1])]
  cells := [("mem", [[], [], [5], [5], [5, 6], [5, 6], [5, 6]])]

/-- The first of the two values has left the queue, the second one is in its register. -/
theorem make_sound_single : Sound ⟨1, 2, 1, 1⟩ 8 singleTrace.state 4 ∧
    transfers singleTrace.state "in" 4 = [5, 6] ∧ transfers singleTrace.state "out" 4 = [5] := by
  have hmade : Returns (make single 1) .empty "FIFO_UInt8_1_1" singleWorkshop :=
    Prod.ext (by decide +kernel) rfl
  have hruns : (singleWorkshop.library.moduleD "FIFO_UInt8_1_1").Runs (fun _ => none)
      (singleWorkshop.library.moduleD "FIFO_UInt8_1_1").typing singleTrace.state :=
    Module.Follows.runs (by decide +kernel) (by decide +kernel)
  have hdepth : FifoGeometry.ofDepth 1 = .ok ⟨1, 2, 1, 1⟩ := by decide +kernel
  have hsound := make_sound (c := single) hdepth rfl rfl rfl
    (fun d hd => absurd hd List.not_mem_nil) hmade
    (Library.module?_eq_moduleD (by decide +kernel)) hruns
    (Trace.fromReset (by decide) (by decide +kernel)) 4
  exact ⟨hsound.2, by decide +kernel, by decide +kernel⟩

end Queue

end StencilRtl
