import StencilRtl.Proofs.Registers.Bus

/-!
# When a Run Is Over

What the slave interface makes of the blocks that report that they are done.

A run is over in the first cycle in which every block is done or known to have been. What
is known is kept in one register for each block, which a start clears, and which a write
that clears done clears as well. So the host can make the interface forget: a block that
has reported before such a write has not reported at all, and since blocks report only
once, the run never ends. As long as the host does not clear done while a run is going on,
nothing is forgotten.

## Main definitions

* `ClearsDone`: The host clears done.
* `Remembers`: It is known that a block has been done.
* `Completes`: A run is over just when every block is done or known to have been.

## Theorems

* `seen_iff`, `run_iff`: What the registers tell.
* `make_completes`: When a run is over.
* `exists_run_lost`: A run of which all blocks are done, and which is not over.
-/

namespace StencilRtl

open Rtl

namespace Rtl

namespace Expr

variable {Γ : Typing} {s : State} {e : Expr} {n v i : Nat}

/-- A bit of a word. -/
theorem isBit_bitAt (h : e.IsWord Γ s n v) (hi : i < n) :
    (Expr.bitAt e i).IsBit Γ s (v.testBit i = true) := by
  have hword := h.bitAt hi
  have hbit : v >>> i % 2 ^ 1 = 1 ↔ v.testBit i = true := by
    rw [Nat.pow_one, Nat.testBit_eq_decide_div_mod_eq, decide_eq_true_eq, Nat.shiftRight_eq_div_pow]
  exact ⟨hword.size, hword.unsigned, by rw [hword.value]; exact hword.small,
    by rw [hword.value, hbit]⟩

end Expr

end Rtl

namespace SlaveInterface

/-- The host clears done: it writes the bit for that to the control. -/
def ClearsDone (s : State) : Prop :=
  Written s controlAddress ∧ (s.value "WSTRB").testBit 0 = true ∧
    (s.value "WDATA").testBit 1 = true

instance (s : State) : Decidable (ClearsDone s) :=
  inferInstanceAs (Decidable (_ ∧ _ ∧ _))

/-- It is known that a block has been done since the start of a run: it was, and done has
    not been cleared from then on. -/
def Remembers (σ : Nat → State) (start : Nat) (d : String) (t : Nat) : Prop :=
  ∃ v, start < v ∧ v < t ∧ (σ v).value d = 1 ∧ ∀ w, v ≤ w → w < t → ¬ClearsDone (σ w)

/-- A run is over just when there has been a cycle in which every block was done or known to
    have been. -/
def Completes (dones : List String) (σ : Nat → State) (start t : Nat) : Prop :=
  (σ t).value "r_run" = 0 ↔ ∃ u, start < u ∧ u < t ∧
    ∀ d ∈ dones, (σ u).value d = 1 ∨ Remembers σ start d u

section

variable {σ : Nat → State} {start t u : Nat} {d : String}

/-- Nothing is known when a run has just begun. -/
theorem not_remembers_first : ¬Remembers σ start d (start + 1) := by
  rintro ⟨v, hv, hv', _⟩
  omega

/-- A cycle more. -/
theorem remembers_succ (ht : start < t) : Remembers σ start d (t + 1) ↔
    ¬ClearsDone (σ t) ∧ ((σ t).value d = 1 ∨ Remembers σ start d t) := by
  refine ⟨?_, ?_⟩
  · rintro ⟨v, hv, hvt, hdone, hnone⟩
    -- It was reported in this cycle or in an earlier one.
    refine ⟨hnone t (by omega) (by omega), ?_⟩
    rcases Nat.lt_or_ge v t with hlt | hge
    · exact .inr ⟨v, hv, hlt, hdone, fun w hvw hwt => hnone w hvw (by omega)⟩
    · have heq : v = t := by omega
      exact .inl (heq ▸ hdone)
  · rintro ⟨hkept, hdone | ⟨v, hv, hvt, hdone, hnone⟩⟩
    · refine ⟨t, ht, Nat.lt_succ_self t, hdone, fun w htw hwt => ?_⟩
      have heq : w = t := by omega
      exact heq ▸ hkept
    · refine ⟨v, hv, by omega, hdone, fun w hvw hwt => ?_⟩
      rcases Nat.lt_or_ge w t with hlt | hge
      · exact hnone w hvw hlt
      · have heq : w = t := by omega
        exact heq ▸ hkept

/-- What has been done is remembered as long as done is not cleared. -/
theorem remembers_of_kept {v : Nat} (hv : start < v) (hvt : v < t) (hdone : (σ v).value d = 1)
    (hkept : ∀ w, start < w → w < t → ¬ClearsDone (σ w)) : Remembers σ start d t :=
  ⟨v, hv, hvt, hdone, fun w hvw hwt => hkept w (by omega) hwt⟩

end

section

variable {registers : List RegisterEntry} {dones : List String}
  {library : String → Option Module} {m : Module} {Γ : Typing} {τ : Nat → State}
  (hbody : body registers dones = .ok m.body) (hbus : HasBus m) (h : m.Runs library Γ τ)

include hbody hbus h

/-- What it takes to clear done. -/
theorem isBit_clearDone (t : Nat) : clearDone.IsBit Γ (τ t) (ClearsDone (τ t)) := by
  have hstrobes := hbus.bus ("WSTRB", 4, .input) (by decide)
  have hdata := hbus.bus ("WDATA", 32, .input) (by decide)
  have hwrite : controlWrite.IsBit Γ (τ t) (∀ P ∈ [(τ t).value "wr_en" = 1,
      (τ t).value "waddr" = controlAddress, ((τ t).value "WSTRB").testBit 0 = true], P) :=
    Expr.isBit_all (.cons (h.isBit (body_ok hbody).enable t)
      (.cons (Expr.isBit_hasValue (by decide))
        (.cons (Expr.isBit_bitAt (Expr.isWord_ref (h.width_eq hstrobes) (h.value_lt hstrobes t))
          (by decide)) .nil)))
  -- It is the second bit of a word whose first byte is written to the control register.
  have hclear := hwrite.and
    (Expr.isBit_bitAt (Expr.isWord_ref (h.width_eq hdata) (h.value_lt hdata t))
      (i := 1) (by decide))
  refine hclear.congr ?_
  rw [List.forall_mem_cons, List.forall_mem_cons, List.forall_mem_singleton,
    (body_ok hbody).wr_en_iff hbus h, ClearsDone, Written]
  tauto

section

variable (hreset : FromReset τ) (hdone : ∀ d ∈ dones, (d, 1) ∈ m.signals)

include hreset hdone

/-- What is known of a block in the next cycle. -/
theorem seen_next {d : String} (hd : d ∈ dones) (t : Nat) : (τ (t + 2)).value (seen d)
    = if (τ (t + 1)).value "r_start" = 1 ∨ ClearsDone (τ (t + 1)) then 0
      else if (τ (t + 1)).value d = 1 then 1 else (τ (t + 1)).value (seen d) := by
  rcases Body.join_ok hbody _ (List.mem_of_getElem? (i := 3) rfl) with ⟨own, hown, hin⟩
  rcases Body.join_ok hbody _ (List.mem_of_getElem? (i := 4) rfl) with ⟨own', hown', hin'⟩
  rcases Body.join_ok hbody _ (List.mem_of_getElem? (i := 14) rfl) with ⟨items, hitems, hsub⟩
  rcases Body.join_part hitems hsub (List.mem_of_getElem? (i := 1) rfl) with ⟨all, hall, hsub'⟩
  rcases Body.join_part hall hsub' (List.mem_map_of_mem hd) with ⟨updates, hupdates, hsub''⟩
  have hstart := h.isBit (Module.signals_of_reg (hin _ (Body.join_reg hown
    (List.mem_of_getElem? (i := 0) rfl)))) (t + 1)
  have hwidth := h.width_eq (Module.signals_of_reg (hin' _ (Body.join_reg hown'
    (List.mem_map_of_mem hd))))
  have hclears := (hstart.or (isBit_clearDone hbody hbus h (t + 1))).own_ne_zero
  rw [h.register_later hreset hbus.reset hupdates hsub'' t, State.firstHolding,
    State.firstHolding, State.firstHolding, hwidth, Expr.assigned_zero]
  exact if_congr hclears rfl (if_congr (h.isBit (hdone d hd) (t + 1)).own_ne_zero rfl rfl)

/-- A run begins with a start and is over when every block is done or known to have
    been. -/
theorem run_next (t : Nat) : (τ (t + 2)).value "r_run"
    = if (τ (t + 1)).value "r_start" = 1 then 1
      else if ∀ d ∈ dones, (τ (t + 1)).value (seen d) = 1 ∨ (τ (t + 1)).value d = 1 then 0
      else (τ (t + 1)).value "r_run" := by
  rcases Body.join_ok hbody _ (List.mem_of_getElem? (i := 3) rfl) with ⟨own, hown, hin⟩
  rcases Body.join_ok hbody _ (List.mem_of_getElem? (i := 4) rfl) with ⟨own', hown', hin'⟩
  rcases Body.join_ok hbody _ (List.mem_of_getElem? (i := 14) rfl) with ⟨items, hitems, hsub⟩
  rcases Body.join_part hitems hsub (List.mem_of_getElem? (i := 2) rfl)
    with ⟨updates, hupdates, hsub'⟩
  have hstart := h.isBit (Module.signals_of_reg (hin _ (Body.join_reg hown
    (List.mem_of_getElem? (i := 0) rfl)))) (t + 1)
  have hwidth := h.width_eq (Module.signals_of_reg (hin _ (Body.join_reg hown
    (List.mem_of_getElem? (i := 1) rfl))))
  -- The conjunction over all blocks is a bit that tells whether none is missing.
  have hall : (allDone dones).IsBit Γ (τ (t + 1)) (∀ P ∈ dones.map fun d =>
      (τ (t + 1)).value (seen d) = 1 ∨ (τ (t + 1)).value d = 1, P) := by
    refine Expr.isBit_all ?_
    rw [List.forall₂_map_left_iff, List.forall₂_map_right_iff, List.forall₂_same]
    intro d hd
    have hseen := Module.signals_of_reg (hin' _ (Body.join_reg hown' (List.mem_map_of_mem hd)))
    exact (h.isBit hseen (t + 1)).or (h.isBit (hdone d hd) (t + 1))
  rw [List.forall_mem_map] at hall
  rw [h.register_later hreset hbus.reset hupdates hsub' t, State.firstHolding,
    State.firstHolding, State.firstHolding, hwidth, Expr.assigned_zero]
  exact if_congr hstart.own_ne_zero rfl (if_congr hall.own_ne_zero rfl rfl)

/-- The register of a block tells what is known of it since the start. -/
theorem seen_iff {start : Nat} (hstart : (τ (start + 1)).value "r_start" = 1) {d : String}
    (hd : d ∈ dones) {t : Nat} (ht : start < t)
    (hnone : ∀ v, start < v → v < t → (τ (v + 1)).value "r_start" ≠ 1) :
    (τ (t + 1)).value (seen d) = 1 ↔ Remembers (fun t => τ (t + 1)) start d t := by
  induction t, ht using Nat.le_induction with
  | base =>
      rw [seen_next hbody hbus h hreset hdone hd, if_pos (.inl hstart)]
      exact iff_of_false Nat.zero_ne_one not_remembers_first
  | succ t ht ih =>
      have hbefore := ih fun v hv hvt => hnone v hv (Nat.lt_succ_of_lt hvt)
      have hquiet := hnone t ht (Nat.lt_succ_self t)
      rw [seen_next hbody hbus h hreset hdone hd, remembers_succ ht]
      -- Clearing comes first: what a block reports in the same cycle is lost as well.
      by_cases hclear : ClearsDone (τ (t + 1))
      · rw [if_pos (.inr hclear)]
        exact iff_of_false Nat.zero_ne_one fun hknown => hknown.1 hclear
      rw [if_neg (not_or.mpr ⟨hquiet, hclear⟩), and_iff_right hclear]
      by_cases hnow : (τ (t + 1)).value d = 1
      · rw [if_pos hnow]
        exact iff_of_true rfl (.inl hnow)
      · rw [if_neg hnow, hbefore, or_iff_right hnow]

/-- The register of the run tells whether it is over. -/
theorem run_iff {start : Nat} (hstart : (τ (start + 1)).value "r_start" = 1) {t : Nat}
    (ht : start < t) (hnone : ∀ v, start < v → v < t → (τ (v + 1)).value "r_start" ≠ 1) :
    Completes dones (fun t => τ (t + 1)) start t := by
  induction t, ht using Nat.le_induction with
  | base =>
      rw [Completes, run_next hbody hbus h hreset hdone, if_pos hstart]
      refine iff_of_false Nat.one_ne_zero ?_
      rintro ⟨u, hu, hu', _⟩
      omega
  | succ t ht ih =>
      have hbefore := ih fun v hv hvt => hnone v hv (Nat.lt_succ_of_lt hvt)
      -- What the registers remember is what has been reported since the start.
      have hseen : (∀ d ∈ dones, (τ (t + 1)).value (seen d) = 1 ∨ (τ (t + 1)).value d = 1) ↔
          ∀ d ∈ dones, (τ (t + 1)).value d = 1 ∨ Remembers (fun t => τ (t + 1)) start d t := by
        refine forall₂_congr fun d hd => ?_
        rw [seen_iff hbody hbus h hreset hdone hstart hd ht
          fun v hv hvt => hnone v hv (Nat.lt_succ_of_lt hvt), or_comm]
      rw [Completes] at hbefore ⊢
      rw [run_next hbody hbus h hreset hdone, if_neg (hnone t ht (Nat.lt_succ_self t))]
      by_cases hnow : ∀ d ∈ dones,
          (τ (t + 1)).value d = 1 ∨ Remembers (fun t => τ (t + 1)) start d t
      · rw [if_pos (hseen.mpr hnow)]
        exact iff_of_true rfl ⟨t, ht, Nat.lt_succ_self t, hnow⟩
      · rw [if_neg (mt hseen.mp hnow), hbefore]
        refine ⟨fun ⟨u, hu, hut, hall⟩ => ⟨u, hu, Nat.lt_succ_of_lt hut, hall⟩, ?_⟩
        rintro ⟨u, hu, hut, hall⟩
        refine ⟨u, hu, Nat.lt_of_le_of_ne (Nat.lt_succ_iff.mp hut) ?_, hall⟩
        rintro rfl
        exact hnow hall

end

end

/-- If done is not cleared while a run goes on, it is over as soon as every block has been
    done. -/
theorem Completes.of_kept {dones : List String} {σ : Nat → State} {start t : Nat}
    (h : Completes dones σ start t) (hsome : dones ≠ [])
    (hkept : ∀ w, start < w → w < t → ¬ClearsDone (σ w))
    (hdone : ∀ d ∈ dones, ∃ v, start < v ∧ v < t ∧ (σ v).value d = 1) :
    (σ t).value "r_run" = 0 := by
  obtain ⟨hstart, hend⟩ : start < t - 1 ∧ t - 1 < t := by
    rcases List.exists_mem_of_ne_nil dones hsome with ⟨d, hd⟩
    rcases hdone d hd with ⟨v, hv, hvt, _⟩
    omega
  -- In the last cycle before, a block reports or has reported earlier.
  refine h.mpr ⟨t - 1, hstart, hend, fun d hd => ?_⟩
  rcases hdone d hd with ⟨v, hv, hvt, hv'⟩
  rcases Nat.lt_or_ge v (t - 1) with hlt | hge
  · exact .inr (remembers_of_kept hv hlt hv' fun w hw hwt => hkept w hw (by omega))
  · have heq : v = t - 1 := by omega
    exact .inl (heq ▸ hv')

/-- A run that has been started is over just when every block is done or known to have
    been, and so it is over once every block has been done, unless the host has cleared
    done in the meantime. -/
theorem make_completes {c : Component} {map : RegisterMap} {w w' : Workshop} {name : String}
    {m : Module} {library : String → Option Module} {Γ : Typing} {τ : Nat → State}
    (hbus : ∀ p ∈ busPorts, c.port? p.1 = some (.uint p.2.1, p.2.2))
    (hdone : ∀ d ∈ doneInputs c, c.portShape d = .ok .bit)
    (hlacks : w.library.Lacks (.slaveInterface map.entries (doneInputs c)))
    (hmake : Returns (make c map) w name w') (hm : w'.library.module? name = some m)
    (h : m.Runs library Γ τ) (hreset : FromReset τ) {start t : Nat}
    (hstart : (τ (start + 1)).value "r_start" = 1) (ht : start < t)
    (hnone : ∀ v, start < v → v < t → (τ (v + 1)).value "r_start" ≠ 1) :
    Completes (doneInputs c) (fun t => τ (t + 1)) start t ∧
      (doneInputs c ≠ [] → (∀ v, start < v → v < t → ¬ClearsDone (τ (v + 1))) →
        (∀ d ∈ doneInputs c, ∃ v, start < v ∧ v < t ∧ (τ (v + 1)).value d = 1) →
          (τ (t + 1)).value "r_run" = 0) := by
  rcases make_built hlacks hmake with ⟨_, m', hm', hports, hbody⟩
  rcases Option.some.inj (hm.symm.trans hm') with rfl
  have hbits : ∀ d ∈ doneInputs c, (d, 1) ∈ m.signals := fun d hd =>
    Component.bit_of_modulePorts hports (hdone d hd)
  have hcompletes := run_iff hbody (hasBus_of_modulePorts hports hbus) h hreset hbits hstart ht
    hnone
  exact ⟨hcompletes, fun hsome hkept hall => hcompletes.of_kept hsome hkept hall⟩

/-- The host starts a run, and the two blocks report one after the other. -/
def finishedTrace : Trace where
  last := 7
  signals :=
    [("reset", [1]), ("AWVALID", [0, 1]), ("AWREADY", [1, 1, 0, 0, 1, 1, 1, 1]),
     ("WVALID", [0, 0, 1]), ("WREADY", [0, 0, 1]), ("WDATA", [0, 0, 1]), ("WSTRB", [0, 0, 1]),
     ("BVALID", [0, 0, 0, 1]), ("BREADY", [0, 0, 0, 1]), ("ARREADY", [1, 1, 1, 1, 1, 1, 1, 1]),
     ("wr_state", [0, 0, 1, 2]), ("wr_next", [0, 1, 2]), ("wr_en", [0, 0, 1]),
     ("r_start", [0, 0, 0, 1]), ("start", [0, 0, 0, 1]), ("r_run", [0, 0, 0, 0, 1, 1, 1]),
     ("r_done", [0, 0, 0, 0, 0, 0, 0, 1]), ("a_done", [0, 0, 0, 0, 1]),
     ("b_done", [0, 0, 0, 0, 0, 0, 1]), ("seen_a_done", [0, 0, 0, 0, 0, 1, 1, 1]),
     ("seen_b_done", [0, 0, 0, 0, 0, 0, 0, 1])]
  cells := []

/-- The run is over when both have reported. -/
theorem make_completes_finished :
    let σ := fun t => finishedTrace.state (t + 1)
    Completes (doneInputs twoBlocks) σ 2 6 ∧ (σ 2).value "r_start" = 1 ∧
      (σ 5).value "r_run" = 1 ∧ (σ 6).value "r_run" = 0 := by
  intro σ
  have hruns : (twoBlocksWorkshop.library.moduleD "SlaveIf").Runs (fun _ => none)
      (twoBlocksWorkshop.library.moduleD "SlaveIf").typing finishedTrace.state :=
    Module.Follows.runs (by decide +kernel) (by decide +kernel)
  have hblocks : doneInputs twoBlocks = ["a_done", "b_done"] := by decide +kernel
  -- Nothing starts the run again or clears what was reported before it is over.
  have hquiet : ∀ v < 6, 2 < v → (σ v).value "r_start" ≠ 1 ∧ ¬ClearsDone (σ v) := by
    decide +kernel
  have hboth := make_completes (c := twoBlocks) (t := 6) (by decide +kernel)
    (by decide +kernel) (fun d hd => absurd hd List.not_mem_nil) returns_twoBlocks
    (Library.module?_eq_moduleD (by decide +kernel)) hruns
    (Trace.fromReset (by decide) (by decide +kernel)) (by decide +kernel) (by decide : 2 < 6)
    fun v hv hv' => (hquiet v hv' hv).1
  refine ⟨hboth.1, by decide +kernel, by decide +kernel, hboth.2 ?_ ?_ ?_⟩
  · rw [hblocks]
    exact List.cons_ne_nil _ _
  · exact fun v hv hv' => (hquiet v hv' hv).2
  · rw [hblocks, List.forall_mem_cons, List.forall_mem_singleton]
    exact ⟨⟨3, by decide, by decide, by decide +kernel⟩,
      ⟨5, by decide, by decide, by decide +kernel⟩⟩

/-- The host starts a run and clears done between the reports of the two blocks. -/
def forgottenTrace : Trace where
  last := 7
  signals :=
    [("reset", [1]), ("AWVALID", [0, 1, 0, 0, 1]), ("AWREADY", [1, 1, 0, 0, 1, 0, 0, 1]),
     ("WVALID", [0, 0, 1, 0, 0, 1]), ("WREADY", [0, 0, 1, 0, 0, 1]),
     ("WDATA", [0, 0, 1, 0, 0, 2]), ("WSTRB", [0, 0, 1, 0, 0, 1]),
     ("BVALID", [0, 0, 0, 1, 0, 0, 1]), ("BREADY", [0, 0, 0, 1, 0, 0, 1]),
     ("ARREADY", [1, 1, 1, 1, 1, 1, 1, 1]), ("wr_state", [0, 0, 1, 2, 0, 1, 2]),
     ("wr_next", [0, 1, 2, 0, 1, 2]), ("wr_en", [0, 0, 1, 0, 0, 1]),
     ("r_start", [0, 0, 0, 1]), ("start", [0, 0, 0, 1]),
     ("r_run", [0, 0, 0, 0, 1, 1, 1, 1]), ("a_done", [0, 0, 0, 0, 1]),
     ("b_done", [0, 0, 0, 0, 0, 0, 1]), ("seen_a_done", [0, 0, 0, 0, 0, 1]),
     ("seen_b_done", [0, 0, 0, 0, 0, 0, 0, 1])]
  cells := []

/-- Both blocks have been done since the run was started, and it is not over and never
    will be. -/
theorem exists_run_lost : ∃ m, twoBlocksWorkshop.library.module? "SlaveIf" = some m ∧
    m.Runs (fun _ => none) m.typing forgottenTrace.state ∧ FromReset forgottenTrace.state ∧
      let σ := fun t => forgottenTrace.state (t + 1)
      (σ 2).value "r_start" = 1 ∧ (∀ t, 2 < t → (σ t).value "r_start" ≠ 1) ∧
        (∀ d ∈ doneInputs twoBlocks, ∃ v, 2 < v ∧ v < 6 ∧ (σ v).value d = 1) ∧
          ∀ t, 6 ≤ t → (σ t).value "r_run" = 1 := by
  have hblocks : doneInputs twoBlocks = ["a_done", "b_done"] := by decide +kernel
  have hquiet : ∀ t ∈ List.range 8, 3 < t → (forgottenTrace.state t).value "r_start" ≠ 1 := by
    decide +kernel
  refine ⟨_, Library.module?_eq_moduleD (by decide +kernel),
    Module.Follows.runs (by decide +kernel) (by decide +kernel),
    Trace.fromReset (by decide) (by decide +kernel), by decide +kernel, fun t ht => ?_, ?_,
    fun t ht => ?_⟩
  · have hlast : forgottenTrace.last = 7 := rfl
    have hstart := hquiet (min (t + 1) forgottenTrace.last) (List.mem_range.mpr (by omega))
      (by omega)
    rwa [forgottenTrace.state_min] at hstart
  · rw [hblocks, List.forall_mem_cons, List.forall_mem_singleton]
    exact ⟨⟨3, by decide, by decide, by decide +kernel⟩,
      ⟨5, by decide, by decide, by decide +kernel⟩⟩
  · -- The trace stays as it ends, so its last cycle tells of all that come.
    have hlast : min (t + 1) forgottenTrace.last = 7 := by
      have hseven : forgottenTrace.last = 7 := rfl
      omega
    have hstays := forgottenTrace.state_min (t + 1)
    rw [hlast] at hstays
    change (forgottenTrace.state (t + 1)).value "r_run" = 1
    rw [← hstays]
    decide +kernel

end SlaveInterface

end StencilRtl
