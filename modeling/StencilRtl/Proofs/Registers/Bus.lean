import StencilRtl.Proofs.Registers.Allocation
import StencilRtl.Proofs.Registers.Machine
import StencilRtl.Proofs.Registers.Slave
import StencilRtl.Proofs.Rtl.Traces

/-!
# The Slave Interface as a File of Registers

What the host sees of the registers when it reads and writes them over the bus.

The host speaks over five channels, and nothing but the order in which it is served
connects a word with an address. So the first thing to know is that addresses and words
alternate, which is a matter of the two state machines alone: what passes on a channel
moves a machine out of the state of that channel. Then the word that passes belongs to
the address that passed last, and that address is still in its register.

A value that is read was fetched two cycles before at the earliest. What is read is the
register as it was when it was fetched, however often it has been written since.

## Main definitions

* `BusChannel.Passes`: Something passes on a channel.
* `Exchange`: On two channels requests and answers alternate.
* `SlaveInterface.readAt`: What is read at an address.
* `SlaveInterface.IsRegisterFile`: The registers are read and written as the host asks.

## Theorems

* `LinearMachine.Walks.exchange`: A machine makes requests and answers alternate.
* `SlaveInterface.rdata_next`: What is fetched.
* `SlaveInterface.make_isRegisterFile`: The slave interface is a file of registers.
-/

namespace StencilRtl

open Rtl

namespace BusChannel

/-- Something passes on a channel. -/
def Passes (c : BusChannel) (s : State) : Prop := s.value c.valid = 1 ∧ s.value c.ready = 1

instance (c : BusChannel) (s : State) : Decidable (c.Passes s) :=
  inferInstanceAs (Decidable (_ ∧ _))

/-- The signal of the handshake that the interface raises. -/
def own (c : BusChannel) : String :=
  match c.direction with
  | .input => c.ready
  | .output => c.valid

/-- The signal of the handshake that the host raises. -/
def other (c : BusChannel) : String :=
  match c.direction with
  | .input => c.valid
  | .output => c.ready

theorem passes_iff (c : BusChannel) (s : State) :
    c.Passes s ↔ s.value c.own = 1 ∧ s.value c.other = 1 := by
  rw [Passes, own, other]
  cases c.direction with
  | input => exact and_comm
  | output => exact Iff.rfl

/-- Nothing passes strictly between two cycles. -/
def Silent (c : BusChannel) (σ : Nat → State) (t u : Nat) : Prop :=
  ∀ v, t < v → v < u → ¬c.Passes (σ v)

/-- The last time that something has passed before a cycle. -/
structure Last (c : BusChannel) (σ : Nat → State) (t u : Nat) : Prop where
  before : t < u
  passes : c.Passes (σ t)
  silent : c.Silent σ t u

namespace Last

variable {c : BusChannel} {σ : Nat → State} {t t' u : Nat}

theorem unique (h : c.Last σ t u) (h' : c.Last σ t' u) : t = t' := by
  rcases Nat.lt_trichotomy t t' with hlt | heq | hgt
  · exact absurd h'.passes (h.silent t' hlt h'.before)
  · exact heq
  · exact absurd h.passes (h'.silent t hgt h.before)

/-- What is taken with each handshake is still there before the next one. -/
theorem latched (register data : State → Nat) (hnext : ∀ v, register (σ (v + 1))
      = if c.Passes (σ v) then data (σ v) else register (σ v)) (h : c.Last σ t u) :
    register (σ u) = data (σ t) := by
  rcases h with ⟨hbefore, hpasses, hsilent⟩
  induction u, hbefore using Nat.le_induction with
  | base => rw [hnext, if_pos hpasses]
  | succ u htu ih =>
      rw [hnext, if_neg (hsilent u htu (Nat.lt_succ_self u))]
      exact ih fun v htv hvu => hsilent v htv (Nat.lt_succ_of_lt hvu)

end Last

end BusChannel

/-- On two channels requests and answers alternate: between two requests that follow each
    other there is one answer, and none comes without a request. -/
structure Exchange (request answer : BusChannel) (σ : Nat → State) : Prop where
  once : ∀ t u, request.Last σ t u → request.Passes (σ u) →
    ∃! v, (t < v ∧ v < u) ∧ answer.Passes (σ v)
  asked : ∀ u, answer.Passes (σ u) → ∃ t, request.Last σ t u ∧ answer.Silent σ t u

namespace LinearMachine

variable {machine : LinearMachine} {Γ : Typing} {i j : Nat}

/-- A machine serves a channel in some state if this state is left with what passes. -/
def Serves (machine : LinearMachine) (Γ : Typing) (σ : Nat → State) (i : Nat)
    (c : BusChannel) : Prop :=
  ∀ t, machine.Leaves Γ (σ t) i ↔ c.Passes (σ t)

/-- A machine makes requests and answers alternate. -/
theorem Walks.exchange {σ : Nat → State} {request answer : BusChannel} (h : machine.Walks Γ σ)
    (hi : machine.Serves Γ σ i request) (hj : machine.Serves Γ σ j answer) (hij : i < j)
    (hlast : j < machine.states.length) : Exchange request answer σ := by
  refine ⟨fun t u htu hu => ?_, fun u hu => ?_⟩
  · have honce := h.leaves_once ((hi t).mpr htu.passes) ((hi u).mpr hu) htu.before
      (fun v htv hvu => mt (hi v).mp (htu.silent v htv hvu)) (Nat.ne_of_lt hij) hlast
    simpa only [hj _] using honce
  · rcases h.leaves_before ((hj u).mpr hu) hij hlast with ⟨t, htu, ht, hnone⟩
    refine ⟨t, ⟨htu, (hi t).mp ht, fun v htv hvu => ?_⟩, fun v htv hvu => ?_⟩
    · exact mt (hi v).mpr (hnone v htv hvu).1
    · exact mt (hj v).mpr (hnone v htv hvu).2

/-- The state of a channel is left with what passes on it. -/
theorem serves_of_runs {items : List Item} {library : String → Option Module} {m : Module}
    {τ : Nat → State} {c : BusChannel} (hbody : machine.body = .ok items)
    (hsub : ∀ i ∈ items, i ∈ m.body) (h : m.Runs library Γ τ)
    (hst : machine.states[i]? = some ⟨[c.own], .ref c.other⟩) (hown : (c.own, 1) ∈ m.signals)
    (hother : (c.other, 1) ∈ m.signals) : machine.Serves Γ (fun t => τ (t + 1)) i c := by
  intro t
  have hraised := raised_iff hbody hsub h hst (List.mem_singleton_self _) hown (t + 1)
  rw [leaves_iff hst, BusChannel.passes_iff, hraised, (h.isBit hother (t + 1)).own_ne_zero]

end LinearMachine

namespace Rtl

namespace Expr

variable {Γ : Typing} {s : State} {a b : Expr} {n k v w : Nat}

namespace IsWord

/-- A word put into a target of its size. -/
theorem assigned_eq (h : a.IsWord Γ s n v) : a.assigned Γ s n = v := by
  rw [assigned, h.unsigned, h.value, Nat.mod_eq_of_lt h.small]

/-- Two words put together, the first one in the low bits. -/
theorem concat (ha : a.IsWord Γ s n v) (hb : b.IsWord Γ s k w) :
    (Expr.concat [a, b]).IsWord Γ s (n + k) (v + 2 ^ n * w) := by
  refine ⟨?_, ?_, fun context => ?_, ?_⟩
  · rw [Expr.size, total, total, total, ha.size, hb.size, Nat.add_zero]
  · rw [isSigned, allSigned, ha.unsigned, Bool.false_and, Bool.false_and]
  · have hown := ha.own_eq
    have hown' := hb.own_eq
    rw [own] at hown hown'
    rw [Expr.value, joined.eq_3 _ _ _ _ _ _ (by simp), packed, packed, hown, hown', ha.size,
      Nat.mul_zero, Nat.add_zero]
  · have hsmall := Nat.mul_le_mul_left (2 ^ n) (Nat.succ_le_of_lt hb.small)
    rw [← Nat.pow_add, Nat.mul_succ] at hsmall
    have hlow := ha.small
    omega

/-- A word extended with zeros to the width of the bus. -/
theorem toBus (h : a.IsWord Γ s n v) (hnarrow : n ≤ busWidth) :
    (SlaveInterface.toBus a n).IsWord Γ s busWidth v := by
  rw [SlaveInterface.toBus]
  split
  · next hwide => exact Nat.le_antisymm hnarrow hwide ▸ h
  · have hzero : (Expr.literal (busWidth - n) 0).IsWord Γ s (busWidth - n) 0 :=
      ⟨by rw [Expr.size], by rw [isSigned],
        fun _ => by rw [Expr.value, extend_false, Nat.zero_mod], Nat.two_pow_pos _⟩
    have hboth := h.concat hzero
    rwa [Nat.add_sub_of_le hnarrow, Nat.mul_zero, Nat.add_zero] at hboth

end IsWord

end Expr

end Rtl

namespace SlaveInterface

/-- What is read at an address: the control, the status, or the register that has it. -/
def readAt (registers : List RegisterEntry) (s : State) (address : Nat) : Nat :=
  if address = controlAddress then s.value "r_start" + 2 * s.value "r_done"
  else if address = statusAddress then s.value "r_run" + 2 * s.value "r_done"
  else ((slots registers).find? fun c => c.address = address).elim 0 fun c => c.held s

/-- The registers are read and written as the host asks, in the cycles after the reset. -/
structure IsRegisterFile (registers : List RegisterEntry) (σ : Nat → State) : Prop where
  cleared : ∀ c ∈ slots registers, c.held (σ 0) = 0
  /-- Every address that is written to gets one word. -/
  writes : Exchange writeAddressChannel writeDataChannel σ
  /-- The word changes the register with the address, as its strobes say, and no other. -/
  written : ∀ t u, writeAddressChannel.Last σ t u → writeDataChannel.Passes (σ u) →
    ∀ c ∈ slots registers, c.held (σ (u + 1)) = if c.address = (σ t).value "AWADDR" then
        merged c.bits ((σ u).value "WSTRB") ((σ u).value "WDATA") (c.held (σ u))
      else c.held (σ u)
  /-- Without a word nothing is written. -/
  kept : ∀ u, ¬writeDataChannel.Passes (σ u) →
    ∀ c ∈ slots registers, c.held (σ (u + 1)) = c.held (σ u)
  /-- The interface waits for the word. -/
  awaited : ∀ t u, writeAddressChannel.Last σ t u → writeDataChannel.Silent σ t u →
    (σ u).value "WREADY" = 1
  /-- Every address that is read gets one value. -/
  reads : Exchange readAddressChannel readDataChannel σ
  /-- The value is the one that was there when it was fetched. -/
  fetched : ∀ t u, readAddressChannel.Last σ t u → readDataChannel.Passes (σ u) →
    t + 1 < u ∧ (σ u).value "RDATA" = readAt registers (σ (t + 1)) ((σ t).value "ARADDR")
  /-- The interface offers the value until it is taken. -/
  offered : ∀ t u, readAddressChannel.Last σ t u → readDataChannel.Silent σ t u → t + 1 < u →
    (σ u).value "RVALID" = 1

/-- All that can be read: the control, the status and the registers, with their addresses
    and widths. -/
def readings (registers : List RegisterEntry) : List (Nat × Rtl.Expr × Nat) :=
  [(controlAddress, .concat [.ref "r_start", .ref "r_done"], 2),
    (statusAddress, .concat [.ref "r_run", .ref "r_done"], 2)]
    ++ (slots registers).map fun c => (c.address, c.target, c.bits)

/-- The branches of a fetch, one for each address. -/
theorem branches_eq (registers : List RegisterEntry) :
    [readBranch controlAddress (.concat [.ref "r_start", .ref "r_done"]) 2,
        readBranch statusAddress (.concat [.ref "r_run", .ref "r_done"]) 2]
      ++ (elements registers).map (fun (address, value, width) => readBranch address value width)
    = ((readings registers).map fun r =>
        (r.1, [Rtl.Stmt.update (.ref "rdata") (toBus r.2.1 r.2.2)])).map fun b =>
          (signed32 b.1, b.2) := by
  rw [elements_eq, readings]
  simp only [List.map_append, List.map_map]
  rfl

section

variable {registers : List RegisterEntry} {dones : List String}
  {library : String → Option Module} {m : Module} {Γ : Typing} {τ : Nat → State}
  (hbody : body registers dones = .ok m.body) (h : m.Runs library Γ τ)

include hbody h

/-- A register of the control is a bit. -/
theorem isWord_control {register : String} (hregister : register ∈ ["r_start", "r_run", "r_done"])
    (t : Nat) : (Expr.ref register).IsWord Γ (τ t) 1 ((τ t).value register) := by
  rcases Body.join_ok hbody _ (List.mem_of_getElem? (i := 3) rfl) with ⟨own, hown, hin⟩
  have hdeclared := Module.signals_of_reg (hin _ (Body.join_reg hown
    (List.mem_map_of_mem (f := fun r => Body.reg r 1) hregister)))
  exact Expr.isWord_ref (h.width_eq hdeclared) (h.value_lt hdeclared t)

/-- What is found at an address is what is to be read there. -/
theorem find?_readings (hroom : ∀ a ∈ RegisterMap.addresses registers, a < 2 ^ 32)
    (hnarrow : ∀ e ∈ registers, e.elem.bits ≤ busWidth) (t address : Nat) :
    (((readings registers).find? fun r => r.1 = address).elim (.number 0) fun r =>
      toBus r.2.1 r.2.2).assigned Γ (τ t) busWidth = readAt registers (τ t) address := by
  have hdone := isWord_control hbody h (by decide : "r_done" ∈ ["r_start", "r_run", "r_done"]) t
  have hcontrol : ∀ low ∈ ["r_start", "r_run", "r_done"],
      (toBus (.concat [.ref low, .ref "r_done"]) 2).assigned Γ (τ t) busWidth
        = (τ t).value low + 2 * (τ t).value "r_done" := fun low hlow =>
    (((isWord_control hbody h hlow t).concat hdone).toBus (by decide)).assigned_eq
  -- Control and status stand in front, so they are found before any register.
  rw [readings, List.cons_append, List.cons_append, List.nil_append, readAt]
  by_cases hfirst : address = controlAddress
  · rw [if_pos hfirst, List.find?_cons_of_pos (by simpa using hfirst.symm)]
    exact hcontrol "r_start" (by decide)
  rw [if_neg hfirst, List.find?_cons_of_neg (by simpa using Ne.symm hfirst)]
  by_cases hsecond : address = statusAddress
  · rw [if_pos hsecond, List.find?_cons_of_pos (by simpa using hsecond.symm)]
    exact hcontrol "r_run" (by decide)
  rw [if_neg hsecond, List.find?_cons_of_neg (by simpa using Ne.symm hsecond), List.find?_map]
  have hsame : ((fun r : Nat × Rtl.Expr × Nat => decide (r.1 = address)) ∘ fun c : Slot =>
      (c.address, c.target, c.bits)) = fun c => decide (c.address = address) := rfl
  rw [hsame]
  cases hfound : (slots registers).find? fun c => c.address = address with
  | none => exact Expr.assigned_zero busWidth
  | some c =>
      have hc := List.mem_of_find?_eq_some hfound
      have hword := ((body_ok hbody).sized h hroom hc).isWord ((body_ok hbody).held_lt h hc t)
      exact (hword.toBus (hnarrow _ (mem_slots.mp hc).1)).assigned_eq

/-- An address that is read is kept until the next one comes. -/
theorem raddr_next (hbus : HasBus m) (t : Nat) : (τ (t + 1)).value "raddr"
    = if readAddressChannel.Passes (τ t) then (τ t).value "ARADDR"
      else (τ t).value "raddr" := by
  rcases Body.join_ok hbody _ (List.mem_of_getElem? (i := 11) rfl) with ⟨items, hitems, hsub⟩
  exact latched_next h hitems hsub (hbus.bus ("ARVALID", 1, .input) (by decide))
    (hbus.bus ("ARREADY", 1, .output) (by decide))
    (Module.signals_of_reg (Body.join_reg hbody (List.mem_of_getElem? (i := 1) rfl)))
    (hbus.bus ("ARADDR", 32, .input) (by decide)) t

/-- What can be read has an address on the bus. -/
theorem readings_lt (hroom : ∀ a ∈ RegisterMap.addresses registers, a < 2 ^ 32) :
    ∀ r ∈ readings registers, r.1 < 2 ^ 32 := by
  rw [readings, List.forall_mem_append]
  refine ⟨by simp [controlAddress, statusAddress], fun r hr => ?_⟩
  rcases List.mem_map.mp hr with ⟨c, hc, rfl⟩
  exact ((body_ok hbody).sized h hroom hc).address_lt

/-- Values are put into the register from which they are offered. -/
theorem executeAll_rdata (value : Rtl.Expr) (t : Nat) :
    (Stmt.executeAll Γ ⟨τ t, τ t⟩ [.update (.ref "rdata") value]).after.value "rdata"
      = value.assigned Γ (τ t) busWidth := by
  have hwidth := h.width_eq (Module.signals_of_reg
    (Body.join_reg hbody (List.mem_of_getElem? (i := 2) rfl)))
  rw [Stmt.executeAll, Stmt.executeAll, Stmt.execute, State.put, hwidth, State.setValue]
  simp only [Function.update_self]

/-- A fetch takes what is to be read at the address that is kept. -/
theorem executeAll_fetch (hroom : ∀ a ∈ RegisterMap.addresses registers, a < 2 ^ 32)
    (hnarrow : ∀ e ∈ registers, e.elem.bits ≤ busWidth) (t : Nat) :
    (Stmt.executeAll Γ ⟨τ t, τ t⟩ [.case (.ref "raddr")
      (((readings registers).map fun r =>
          (r.1, [Rtl.Stmt.update (.ref "rdata") (toBus r.2.1 r.2.2)])).map fun b =>
            (signed32 b.1, b.2))
      (some [.update (.ref "rdata") (.number 0)])]).after.value "rdata"
        = readAt registers (τ t) ((τ t).value "raddr") := by
  have hlabels : ∀ b ∈ (readings registers).map fun r =>
      (r.1, [Rtl.Stmt.update (.ref "rdata") (toBus r.2.1 r.2.2)]), b.1 < 2 ^ 32 := by
    rw [List.forall_mem_map]
    exact readings_lt hbody h hroom
  rw [Stmt.executeAll, Stmt.executeAll, Stmt.execute, Stmt.executeElse,
    Stmt.executeCase_find hlabels, List.find?_map, ← find?_readings hbody h hroom hnarrow t]
  have hsame : ((fun b : Nat × List Rtl.Stmt => decide (b.1 = (τ t).value "raddr")) ∘
      fun r : Nat × Rtl.Expr × Nat => (r.1, [Rtl.Stmt.update (.ref "rdata") (toBus r.2.1 r.2.2)]))
      = fun r => decide (r.1 = (τ t).value "raddr") := rfl
  rw [hsame]
  cases (readings registers).find? fun r => decide (r.1 = (τ t).value "raddr") with
  | none => exact executeAll_rdata hbody h _ t
  | some r => exact executeAll_rdata hbody h _ t

/-- A value is fetched in the second state of the machine that serves reads, and is kept
    from then on. -/
theorem rdata_next (hbus : HasBus m) (hroom : ∀ a ∈ RegisterMap.addresses registers, a < 2 ^ 32)
    (hnarrow : ∀ e ∈ registers, e.elem.bits ≤ busWidth) (t : Nat) :
    (τ (t + 1)).value "rdata" = if (τ t).value reset = 1 then 0
      else if (τ t).value readMachine.stateRegister = 1 then
        readAt registers (τ t) ((τ t).value "raddr")
      else (τ t).value "rdata" := by
  rcases Body.join_ok hbody _ (List.mem_of_getElem? (i := 16) rfl) with ⟨items, hitems, hsub⟩
  rcases Except.ok.inj hitems with rfl
  have hafter := (h.holds t _ (hsub _ (List.mem_singleton_self _)) "rdata" (by
    simp [Stmt.targetsOfAll, Stmt.targets, Stmt.targetsOfBranches, Expr.target?])).1
  have hfetch : (readMachine.isIn 1).own Γ (τ t) ≠ 0
      ↔ (τ t).value readMachine.stateRegister = 1 :=
    (Expr.isBit_hasValue (Nat.lt_of_lt_of_le (by decide)
      (le_two_pow_bitsNeededFor readMachine.states.length))).own_ne_zero
  rw [branches_eq, Stmt.executeAll, Stmt.executeAll, Stmt.execute, Stmt.executeElse,
    Stmt.executeFirst, Stmt.executeFirst, Stmt.executeFirst] at hafter
  -- The reset comes before the fetch, and without either the register is left alone.
  by_cases hclear : (τ t).value reset = 1
  · rw [if_pos ((h.isBit hbus.reset t).own_ne_zero.mpr hclear), executeAll_rdata hbody h,
      Expr.assigned_zero] at hafter
    rw [if_pos hclear, hafter]
  rw [if_neg (mt (h.isBit hbus.reset t).own_ne_zero.mp hclear)] at hafter
  rw [if_neg hclear]
  by_cases hon : (τ t).value readMachine.stateRegister = 1
  · rw [if_pos (hfetch.mpr hon), executeAll_fetch hbody h hroom hnarrow] at hafter
    rw [if_pos hon, hafter]
  · rw [if_neg (mt hfetch.mp hon)] at hafter
    rw [if_neg hon, hafter]

section

variable (hbus : HasBus m) (hreset : FromReset τ)

include hbus hreset

/-- The machine that serves writes goes round between the address and the word. -/
theorem writeMachine_serves :
    writeMachine.Walks Γ (fun t => τ (t + 1)) ∧
      writeMachine.Serves Γ (fun t => τ (t + 1)) 0 writeAddressChannel ∧
      writeMachine.Serves Γ (fun t => τ (t + 1)) 1 writeDataChannel := by
  rcases Body.join_ok hbody _ (List.mem_of_getElem? (i := 6) rfl) with ⟨items, hitems, hsub⟩
  refine ⟨LinearMachine.walks_of_runs hitems hsub h hreset hbus.reset (by decide)
    (List.cons_ne_nil _ _), ?_, ?_⟩
  · exact LinearMachine.serves_of_runs hitems hsub h rfl
      (hbus.bus ("AWREADY", 1, .output) (by decide)) (hbus.bus ("AWVALID", 1, .input) (by decide))
  · exact LinearMachine.serves_of_runs hitems hsub h rfl
      (hbus.bus ("WREADY", 1, .output) (by decide)) (hbus.bus ("WVALID", 1, .input) (by decide))

/-- The machine that serves reads goes round between the address and the value. -/
theorem readMachine_serves :
    readMachine.Walks Γ (fun t => τ (t + 1)) ∧
      readMachine.Serves Γ (fun t => τ (t + 1)) 0 readAddressChannel ∧
      readMachine.Serves Γ (fun t => τ (t + 1)) 2 readDataChannel := by
  rcases Body.join_ok hbody _ (List.mem_of_getElem? (i := 10) rfl) with ⟨items, hitems, hsub⟩
  refine ⟨LinearMachine.walks_of_runs hitems hsub h hreset hbus.reset (by decide)
    (List.cons_ne_nil _ _), ?_, ?_⟩
  · exact LinearMachine.serves_of_runs hitems hsub h rfl
      (hbus.bus ("ARREADY", 1, .output) (by decide)) (hbus.bus ("ARVALID", 1, .input) (by decide))
  · exact LinearMachine.serves_of_runs hitems hsub h rfl
      (hbus.bus ("RVALID", 1, .output) (by decide)) (hbus.bus ("RREADY", 1, .input) (by decide))

/-- From the second cycle after an address on the value is offered until it passes. -/
theorem offering {t u : Nat}
    (ht : readAddressChannel.Passes (τ (t + 1)))
    (hsilent : readDataChannel.Silent (fun t => τ (t + 1)) t u) {v : Nat} (htv : t + 2 ≤ v)
    (hvu : v ≤ u) : (τ (v + 1)).value readMachine.stateRegister = 2 := by
  rcases readMachine_serves hbody h hbus hreset with ⟨hwalks, haddress, hdata⟩
  have hfetch := hwalks.enters ((haddress t).mpr ht) (by decide)
  -- The machine does not wait in the second state.
  have hmoves : readMachine.Leaves Γ (τ (t + 2)) 1 := by
    refine (LinearMachine.leaves_iff rfl).mpr ⟨hfetch, ?_⟩
    exact (Expr.isBit_bit true).own_ne_zero.mpr rfl
  refine hwalks.stays (hwalks.enters (t := t + 1) hmoves (by decide)) htv fun x htx hxv => ?_
  exact mt (hdata x).mp (hsilent x (by omega) (by omega))

section

variable (hroom : ∀ a ∈ RegisterMap.addresses registers, a < 2 ^ 32)
  (hnarrow : ∀ e ∈ registers, e.elem.bits ≤ busWidth)

include hroom hnarrow

/-- While a value is offered, the register keeps it. -/
theorem rdata_kept {t u : Nat} (ht : readAddressChannel.Passes (τ (t + 1)))
    (hsilent : readDataChannel.Silent (fun t => τ (t + 1)) t u) {v : Nat} (htv : t + 2 ≤ v)
    (hvu : v ≤ u) : (τ (v + 1)).value "rdata" = (τ (t + 3)).value "rdata" := by
  induction v, htv using Nat.le_induction with
  | base => rfl
  | succ v htv ih =>
      -- A machine that offers a value does not fetch one.
      have hoffer := offering hbody h hbus hreset ht hsilent htv (by omega)
      rw [rdata_next hbody h hbus hroom hnarrow, hreset.later, if_neg Nat.zero_ne_one, hoffer,
        if_neg (by decide), ih (by omega)]

/-- A value that passes is the one that was fetched. -/
theorem rdata_fetched {t u : Nat} (hlast : readAddressChannel.Last (fun t => τ (t + 1)) t u)
    (hvalue : readDataChannel.Passes (τ (u + 1))) : t + 1 < u ∧ (τ (u + 1)).value "RDATA"
      = readAt registers (τ (t + 2)) ((τ (t + 1)).value "ARADDR") := by
  rcases readMachine_serves hbody h hbus hreset with ⟨hwalks, haddress, hdata⟩
  have hfetch := hwalks.enters ((haddress t).mpr hlast.passes) (by decide)
  have hstate := ((hdata u).mpr hvalue).2
  -- The cycle of the fetch lies between, since nothing is offered in it.
  have hlater : t + 1 < u := by
    refine Nat.lt_of_le_of_ne hlast.before fun heq => ?_
    rw [heq, hstate] at hfetch
    exact absurd hfetch (by decide)
  have hsilent : readDataChannel.Silent (fun t => τ (t + 1)) t u := by
    rcases (hwalks.exchange haddress hdata (by decide) (by decide)).asked u hvalue
      with ⟨t', hlast', hsilent⟩
    rwa [hlast.unique hlast']
  have hraddr : (τ (t + 2)).value "raddr" = (τ (t + 1)).value "ARADDR" := by
    rw [raddr_next hbody h hbus]
    exact if_pos hlast.passes
  have hfetched : (τ (t + 3)).value "rdata"
      = readAt registers (τ (t + 2)) ((τ (t + 1)).value "ARADDR") := by
    rw [rdata_next hbody h hbus hroom hnarrow, hreset.later, if_neg Nat.zero_ne_one,
      if_pos hfetch, hraddr]
  have hrdata := Module.signals_of_reg (Body.join_reg hbody (List.mem_of_getElem? (i := 2) rfl))
  have hwidth : Γ.width "RDATA" = busWidth :=
    h.width_eq (hbus.bus ("RDATA", 32, .output) (by decide))
  refine ⟨hlater, ?_⟩
  rw [h.assigned (Body.join_assign hbody (List.mem_of_getElem? (i := 12) rfl)) (u + 1), hwidth,
    Expr.assigned_ref (h.value_lt hrdata (u + 1)),
    rdata_kept hbody h hbus hreset hroom hnarrow hlast.passes hsilent hlater (Nat.le_refl u),
    hfetched]

section

variable (hnames : (registers.map RegisterEntry.name).Nodup)
  (haddresses : (RegisterMap.addresses registers).Pairwise (· < ·))

include hnames haddresses

/-- A word changes the register with the address that passed last. -/
theorem held_written {t u : Nat} (hlast : writeAddressChannel.Last (fun t => τ (t + 1)) t u)
    (hword : writeDataChannel.Passes (τ (u + 1))) {c : Slot} (hc : c ∈ slots registers) :
    c.held (τ (u + 2)) = if c.address = (τ (t + 1)).value "AWADDR" then
        merged c.bits ((τ (u + 1)).value "WSTRB") ((τ (u + 1)).value "WDATA") (c.held (τ (u + 1)))
      else c.held (τ (u + 1)) := by
  have haddress : (τ (u + 1)).value "waddr" = (τ (t + 1)).value "AWADDR" :=
    BusChannel.Last.latched (c := writeAddressChannel) (σ := fun t => τ (t + 1))
      (fun s => s.value "waddr") (fun s => s.value "AWADDR")
      (fun v => (body_ok hbody).waddr_next hbus h (v + 1)) hlast
  rw [(body_ok hbody).held_next hbus h (u + 1) hnames haddresses hroom hc
    (hnarrow _ (mem_slots.mp hc).1), hreset.later, if_neg Nat.zero_ne_one]
  refine if_congr ⟨fun hwrite => ?_, fun hsame => ⟨hword.1, hword.2, ?_⟩⟩ rfl rfl
  · rw [← haddress, hwrite.2.2]
  · rw [haddress, hsame]

/-- The logic of the interface is a file of registers. -/
theorem isRegisterFile : IsRegisterFile registers fun t => τ (t + 1) := by
  rcases writeMachine_serves hbody h hbus hreset with ⟨hwalks, haddress, hword⟩
  rcases readMachine_serves hbody h hbus hreset with ⟨hwalks', haddress', hvalue⟩
  have hnext := fun t c hc => (body_ok hbody).held_next hbus h t hnames haddresses hroom
    (c := c) hc (hnarrow _ (mem_slots.mp hc).1)
  exact {
    cleared := fun c hc => by rw [hnext 0 c hc, if_pos hreset.first]
    writes := hwalks.exchange haddress hword (by decide) (by decide)
    written := fun t u hlast hpasses c hc =>
      held_written hbody h hbus hreset hroom hnarrow hnames haddresses hlast hpasses hc
    kept := fun u hnone c hc => by
      rw [hnext (u + 1) c hc, hreset.later, if_neg Nat.zero_ne_one,
        if_neg fun hwrite => hnone ⟨hwrite.1, hwrite.2.1⟩]
    -- A machine stays where it waits until its channel moves.
    awaited := fun t u hlast hsilent => by
      rcases Body.join_ok hbody _ (List.mem_of_getElem? (i := 6) rfl) with ⟨items, hitems, hsub⟩
      refine (LinearMachine.raised_iff hitems hsub h (i := 1) rfl (List.mem_singleton_self _)
        (hbus.bus ("WREADY", 1, .output) (by decide)) (u + 1)).mpr ?_
      refine hwalks.stays (hwalks.enters ((haddress t).mpr hlast.passes) (by decide))
        hlast.before fun v htv hvu => mt (hword v).mp (hsilent v htv hvu)
    reads := hwalks'.exchange haddress' hvalue (by decide) (by decide)
    fetched := fun t u hlast hpasses =>
      rdata_fetched hbody h hbus hreset hroom hnarrow hlast hpasses
    offered := fun t u hlast hsilent hlater => by
      rcases Body.join_ok hbody _ (List.mem_of_getElem? (i := 10) rfl) with ⟨items, hitems, hsub⟩
      refine (LinearMachine.raised_iff hitems hsub h (i := 2) rfl (List.mem_singleton_self _)
        (hbus.bus ("RVALID", 1, .output) (by decide)) (u + 1)).mpr ?_
      exact offering hbody h hbus hreset hlast.passes hsilent hlater (Nat.le_refl u) }

end

end

end

end

/-- The slave interface of any register map with addresses that the bus can tell apart is
    a file of registers. -/
theorem make_isRegisterFile {c : Component} {calls : List (String × Shape)} {w w' : Workshop}
    {name : String} {m : Module} {library : String → Option Module} {Γ : Typing}
    {τ : Nat → State}
    (hbus : ∀ p ∈ busPorts, c.port? p.1 = some (.uint p.2.1, p.2.2))
    (hroom : ∀ a ∈ RegisterMap.addresses (RegisterMap.empty.placed calls).entries, a < 2 ^ 32)
    (hlacks : w.library.Lacks
      (.slaveInterface (RegisterMap.empty.placed calls).entries (doneInputs c)))
    (hmake : Returns (make c (RegisterMap.empty.placed calls)) w name w')
    (hm : w'.library.module? name = some m) (h : m.Runs library Γ τ) (hreset : FromReset τ) :
    IsRegisterFile (RegisterMap.empty.placed calls).entries fun t => τ (t + 1) := by
  rcases make_built hlacks hmake with ⟨hvalid, m', hm', hports, hbody⟩
  rcases Option.some.inj (hm.symm.trans hm') with rfl
  exact isRegisterFile hbody h (hasBus_of_modulePorts hports hbus) hreset
    hroom (RegisterMap.narrow_placed calls) (RegisterMap.sound_placed calls).distinct
    (RegisterMap.addresses_of_validateFrom hvalid).1

/-- A slave interface for two blocks, with one parameter. -/
def twoBlocks : Component :=
  ⟨"slave", .slaveInterface,
    (busPorts.filter fun p => p.2.2 = .input).map (fun p => (p.1, .uint p.2.1))
      ++ [("a_done", .bit), ("b_done", .bit)],
    ("start", .bit) :: ("gain", .uint 9)
      :: (busPorts.filter fun p => p.2.2 = .output).map fun p => (p.1, .uint p.2.1)⟩

/-- The parameter has nine bits, so that its second byte is a single bit. -/
def twoBlocksCalls : List (String × Shape) := [("gain", .uint 9)]

/-- Its module. -/
def twoBlocksWorkshop : Workshop :=
  ((make twoBlocks (RegisterMap.empty.placed twoBlocksCalls)).run.run .empty).2

theorem returns_twoBlocks : Returns (make twoBlocks (RegisterMap.empty.placed twoBlocksCalls))
    .empty "SlaveIf" twoBlocksWorkshop := by
  refine returns_of_run (m := make twoBlocks (RegisterMap.empty.placed twoBlocksCalls)) ?_
  decide +kernel

/-- The first byte of the parameter is written while the parameter is read, and then it is
    read again. -/
def twoBlocksTrace : Trace where
  last := 7
  signals :=
    [("reset", [1]), ("AWVALID", [0, 1]), ("AWREADY", [1, 1, 0, 0, 1, 1, 1, 1]),
     ("AWADDR", [0, 0x40]), ("WVALID", [0, 0, 1]), ("WREADY", [0, 0, 1]),
     ("WDATA", [0, 0, 0x1ab]), ("WSTRB", [0, 0, 1]), ("BVALID", [0, 0, 0, 1]),
     ("BREADY", [0, 0, 0, 1]), ("ARVALID", [0, 1, 0, 0, 1]),
     ("ARREADY", [1, 1, 0, 0, 1, 0, 0, 1]), ("ARADDR", [0, 0x40, 0, 0, 0x40]),
     ("RVALID", [0, 0, 0, 1, 0, 0, 1]), ("RREADY", [0, 0, 0, 1, 0, 0, 1]),
     ("RDATA", [0, 0, 0, 0, 0, 0, 0xab, 0xab]), ("rdata", [0, 0, 0, 0, 0, 0, 0xab, 0xab]),
     ("wr_state", [0, 0, 1, 2]), ("wr_next", [0, 1, 2]), ("rd_state", [0, 0, 1, 2, 0, 1, 2]),
     ("rd_next", [0, 1, 2, 0, 1, 2]), ("waddr", [0, 0, 0x40, 0x40, 0x40, 0x40, 0x40, 0x40]),
     ("raddr", [0, 0, 0x40, 0x40, 0x40, 0x40, 0x40, 0x40]), ("wr_en", [0, 0, 1]),
     ("r_gain", [0, 0, 0, 0xab, 0xab, 0xab, 0xab, 0xab]),
     ("gain", [0, 0, 0, 0xab, 0xab, 0xab, 0xab, 0xab])]
  cells := []

/-- What is read first is the parameter as it was, and what is read then is the byte that
    was written. -/
theorem make_isRegisterFile_twoBlocks :
    let σ := fun t => twoBlocksTrace.state (t + 1)
    IsRegisterFile (RegisterMap.empty.placed twoBlocksCalls).entries σ ∧
      writeDataChannel.Passes (σ 1) ∧ writeAddressChannel.Last σ 0 1 ∧
      readDataChannel.Passes (σ 2) ∧ (σ 2).value "RDATA" = 0 ∧
      readDataChannel.Passes (σ 5) ∧ (σ 5).value "RDATA" = 0xab := by
  intro σ
  have hruns : (twoBlocksWorkshop.library.moduleD "SlaveIf").Runs (fun _ => none)
      (twoBlocksWorkshop.library.moduleD "SlaveIf").typing twoBlocksTrace.state :=
    Module.Follows.runs (by decide +kernel) (by decide +kernel)
  have hfile := make_isRegisterFile (c := twoBlocks) (by decide +kernel)
    (by decide +kernel) (fun d hd => absurd hd List.not_mem_nil) returns_twoBlocks
    (Library.module?_eq_moduleD (by decide +kernel)) hruns
    (Trace.fromReset (by decide) (by decide +kernel))
  refine ⟨hfile, by decide +kernel, ⟨by decide, by decide +kernel, ?_⟩, by decide +kernel,
    by decide +kernel, by decide +kernel, by decide +kernel⟩
  intro v hv hv'
  omega

end SlaveInterface

end StencilRtl
