import StencilRtl.Hardware.Dispatch
import StencilRtl.Proofs.Dispatch.Walk
import StencilRtl.Proofs.Rtl.Making
import StencilRtl.Proofs.Rtl.Traces
import StencilRtl.Proofs.Scan.Counters

/-!
# Routers

The hardware of a router does what its geometry says.

The counters of a router are as wide as the image asks, so they have room for every
position, and the literals that move them have room for the steps. The literals that a
box is compared with have the width of the counters too, whatever the box is. A box may
begin or end past the image, and then the literal is not the number that was meant.
`Readable` says that no literal of a box is cut, and what the hardware compares with
otherwise is said by `boxCondition_isBit`.

What the moves of the counters do is known from the geometry in words, and so only of
the moves that stay in words. The hardware has no such limit.

## Main definitions

* `DispatchPlan.held`: The position the counters of a router hold.
* `DispatchPlan.Readable`: The bounds of a box fit the counters.
* `DispatchPlan.HasLogic`: A module has the logic of a router.

## Theorems

* `boxCondition_isBit`: What is compared for a box.
* `HasLogic.held_next`: The counters move as the geometry says.
* `make_agrees`: A router that was made agrees with its geometry.
-/

namespace StencilRtl

namespace DispatchPlan

open Rtl

/-- The position the counters of a router hold. -/
def held (p : DispatchPlan) (s : State) : List Nat :=
  (List.range p.sizes.length).map fun d => s.value s!"ctr_{d}"

/-- The bounds of a box fit the counters they are compared with, unless the box is too
    small to be compared at all. -/
def Readable (p : DispatchPlan) (box : DispatchBox) : Prop :=
  p.fits box = true → ∀ side ∈ p.sides box,
    side.2.1 < 2 ^ bitsNeededFor side.1.2.2
      ∧ side.2.1 + side.2.2 - side.1.1 < 2 ^ bitsNeededFor side.1.2.2

instance (p : DispatchPlan) (box : DispatchBox) : Decidable (p.Readable box) :=
  inferInstanceAs (Decidable (_ → _))

/-- A counter is built for a dimension of a router. -/
def CountsSide (c : ScanCounter) (d : Nat × Nat × Nat) : Prop :=
  c.width = bitsNeededFor d.2.2 ∧ c.Counts (d.2.1, d.2.2 - d.1)

variable {p : DispatchPlan} {counters : List ScanCounter}

/-- The counters of a router are built for its dimensions. -/
theorem counters_ok (h : p.Checked) (hsizes : ∀ size ∈ p.sizes, 1 ≤ size)
    (hcounters : p.counters = .ok counters) :
    (∀ s, ScanCounter.held counters s = p.held s)
      ∧ List.Forall₂ CountsSide counters p.dimensions := by
  rcases Fallible.bind_ok.mp hcounters with ⟨lastFrom, hlast, hmade⟩
  rcases Fallible.bind_ok.mp hlast with ⟨maxes, hmaxes, hlast⟩
  rcases Except.ok.inj ((maxes_ok h).symm.trans hmaxes) with rfl
  have hlastFrom : lastFrom = p.dimensions.map fun d => d.2.2 - d.1 + 1 - d.2.1 := by
    rw [← map_steps h, List.zip_map', List.mapM_map] at hlast
    refine Fallible.mapM_eq_map (fun d _ last hd => ?_) hlast
    rcases Fallible.bind_ok.mp hd with ⟨past, hpast, hd⟩
    rw [← Except.ok.inj hd, ← (Word.add_eq_ok.mp hpast).2]
  -- The three lists the counters are made from are read off the dimensions alone.
  have hdims : p.widths.zip (p.steps.zip lastFrom)
      = p.dimensions.map fun d => (bitsNeededFor d.2.2, d.2.1, d.2.2 - d.1 + 1 - d.2.1) := by
    rw [widths, hlastFrom, ← map_steps h, ← map_stores h, List.map_map, List.zip_map',
      List.zip_map']
    rfl
  rw [hdims] at hmade
  rcases ScanCounter.counts_of_ofDimensions hmade with ⟨hregisters, hcounts⟩
  refine ⟨fun s => ?_, ?_⟩
  · rw [held, ← map_sizes h, List.length_map]
    rw [List.length_map, ← List.range_eq_range'] at hregisters
    have hvalues := congrArg (List.map s.value) hregisters
    rw [List.map_map, List.map_map] at hvalues
    exact hvalues
  · rw [List.forall₂_map_right_iff] at hcounts
    -- The last position has room in the bits of the extent, since a window has at least one
    -- element.
    have hdim : ∀ d ∈ p.dimensions, 0 < d.2.1 ∧ d.2.2 - d.1 < 2 ^ bitsNeededFor d.2.2 := by
      intro d hd
      have hsize : 1 ≤ d.1 := by
        refine hsizes d.1 ?_
        rw [← map_sizes h]
        exact List.mem_map_of_mem hd
      have hroom := le_two_pow_bitsNeededFor d.2.2
      have hle := h.size_le d hd
      exact ⟨h.step_pos d hd, by omega⟩
    refine List.Forall₂.flip (((List.forall₂_and_left _ _).mpr ⟨hdim, hcounts.flip⟩).imp ?_)
    rintro d c ⟨⟨hstep, hroom⟩, hwidth, hbuilt⟩
    exact ⟨hwidth, hbuilt (d.2.1, d.2.2 - d.1) hstep rfl hroom rfl⟩

/-- A position lies between the near and the far end of a side, both cut to the width of
    the counter they are compared with. -/
def BetweenEnds (side : (Nat × Nat × Nat) × Nat × Nat) (x : Nat) : Prop :=
  side.2.1 % 2 ^ bitsNeededFor side.1.2.2 ≤ x
    ∧ x ≤ (side.2.1 + side.2.2 - side.1.1) % 2 ^ bitsNeededFor side.1.2.2

/-- The comparisons of some counters with the sides of a box. -/
theorem isBits_boxBounds {Γ : Typing} {s : State} {sides : List ((Nat × Nat × Nat) × Nat × Nat)}
    (hsides : List.Forall₂ (fun c (side : (Nat × Nat × Nat) × Nat × Nat) =>
      CountsSide c side.1) counters sides) {bounds : List (List Rtl.Expr)}
    (h : (counters.zip (sides.map fun side => (side.1.1, side.2))).mapM boxBounds = .ok bounds) :
    ∃ Ps, List.Forall₂ (fun e P => e.IsBit Γ s P) bounds.flatten Ps
      ∧ ((∀ P ∈ Ps, P) ↔ List.Forall₂ BetweenEnds sides (ScanCounter.held counters s)) := by
  induction hsides generalizing bounds with
  | nil =>
      rw [← Except.ok.inj h]
      exact ⟨[], .nil, iff_of_true (fun P hP => absurd hP List.not_mem_nil) .nil⟩
  | @cons c side counters sides hhead _ ih =>
      rw [List.map_cons, List.zip_cons_cons, List.mapM_cons, Fallible.bind_ok] at h
      rcases h with ⟨first, hfirst, h⟩
      rcases Fallible.bind_ok.mp h with ⟨more, hmore, h⟩
      rcases ih hmore with ⟨Ps, hbits, hiff⟩
      rcases Fallible.bind_ok.mp hfirst with ⟨past, hpast, hfirst⟩
      rcases Fallible.bind_ok.mp hfirst with ⟨high, hhigh, hfirst⟩
      -- What is compared are numbers, since the sums and differences did not leave the words.
      have hpast : side.2.1 + side.2.2 = past := (Word.add_eq_ok.mp hpast).2
      have hhigh : past - side.1.1 = high := (Word.sub_eq_ok.mp hhigh).2
      rw [← Except.ok.inj h, ← Except.ok.inj hfirst]
      refine ⟨_ :: _ :: Ps, .cons Expr.isBit_atLeast (.cons Expr.isBit_atMost hbits), ?_⟩
      rw [List.forall_mem_cons, List.forall_mem_cons, hiff, ScanCounter.held, ScanCounter.held,
        List.map_cons, List.forall₂_cons, BetweenEnds, hpast, hhigh, hhead.1, and_assoc]

/-- What is compared for a box: the near and the far end, cut to the width of the
    counters, unless the box cannot hold a window. -/
theorem boxCondition_isBit (h : p.Checked) {box : DispatchBox} (hbox : box ∈ p.consumers)
    (hcounters : List.Forall₂ CountsSide counters p.dimensions) {cond : Rtl.Expr}
    (hcond : p.boxCondition counters box = .ok cond) {Γ : Typing} {s : State} :
    cond.IsBit Γ s (p.fits box = true
      ∧ List.Forall₂ BetweenEnds (p.sides box) (ScanCounter.held counters s)) := by
  -- The sides of a box come with the dimensions of the walk, in their order.
  have hsides : List.Forall₂ (fun c (side : (Nat × Nat × Nat) × Nat × Nat) => CountsSide c side.1)
      counters (p.sides box) := by
    rw [← map_fst_sides h hbox, List.forall₂_map_right_iff] at hcounters
    exact hcounters
  rw [boxCondition] at hcond
  split at hcond
  next hfits =>
    rcases Fallible.bind_ok.mp hcond with ⟨bounds, hbounds, hcond⟩
    rw [sizes_zip_sides h hbox] at hbounds
    rcases isBits_boxBounds (Γ := Γ) (s := s) hsides hbounds with ⟨Ps, hbits, hiff⟩
    rw [← Except.ok.inj hcond]
    exact (Expr.isBit_all hbits).congr (hiff.trans (and_iff_right hfits).symm)
  next hfits =>
    rw [← Except.ok.inj hcond]
    exact (Expr.isBit_bit false).congr (iff_of_false Bool.false_ne_true fun hall => hfits hall.1)

theorem fits_iff (h : p.Checked) {box : DispatchBox} (hbox : box ∈ p.consumers) :
    p.fits box = true ↔ ∀ side ∈ p.sides box, side.1.1 ≤ side.2.2 := by
  have hextents : ((p.sides box).map fun side => side.2.2) = box.extents := by
    have hsnd := congrArg (List.map Prod.snd) (map_snd_sides h hbox)
    rw [List.map_map, List.map_snd_zip
      (by rw [h.offsets_length box hbox, h.extents_length box hbox])] at hsnd
    exact hsnd
  have hpairs : p.sizes.zip box.extents = (p.sides box).map fun side => (side.1.1, side.2.2) := by
    rw [← hextents, ← map_sizes h, ← map_fst_sides h hbox, List.map_map, List.zip_map']
    rfl
  rw [fits, hpairs, List.all_map, List.all_eq_true]
  exact forall₂_congr fun side _ => decide_eq_true_iff

section

variable {sides : List ((Nat × Nat × Nat) × Nat × Nat)} {position : List Nat}
  (hlength : position.length = sides.length)

include hlength

/-- Only a box that can hold a window has one in it. -/
theorem size_le_of_inSide (hall : ((sides.zip position).all fun x => inSide x.1 x.2) = true) :
    ∀ side ∈ sides, side.1.1 ≤ side.2.2 := by
  induction sides generalizing position with
  | nil => exact fun side hside => absurd hside List.not_mem_nil
  | cons side sides ih =>
      rcases List.exists_cons_of_length_eq_add_one hlength with ⟨x, position, rfl⟩
      rw [List.zip_cons_cons, List.all_cons, Bool.and_eq_true] at hall
      refine List.forall_mem_cons.mpr ⟨?_, ih (Nat.succ.inj hlength) hall.2⟩
      have hin : side.2.1 ≤ x ∧ x + side.1.1 ≤ side.2.1 + side.2.2 := of_decide_eq_true hall.1
      omega

/-- Ends that fit their counters are compared as they are. -/
theorem betweenEnds_iff_inSide (hread : ∀ side ∈ sides, side.2.1 < 2 ^ bitsNeededFor side.1.2.2
      ∧ side.2.1 + side.2.2 - side.1.1 < 2 ^ bitsNeededFor side.1.2.2)
    (hfits : ∀ side ∈ sides, side.1.1 ≤ side.2.2) :
    List.Forall₂ BetweenEnds sides position
      ↔ ((sides.zip position).all fun x => inSide x.1 x.2) = true := by
  induction sides generalizing position with
  | nil =>
      rw [List.eq_nil_of_length_eq_zero hlength]
      exact iff_of_true .nil rfl
  | cons side sides ih =>
      rcases List.exists_cons_of_length_eq_add_one hlength with ⟨x, position, rfl⟩
      rw [List.forall_mem_cons] at hread hfits
      have hhead : BetweenEnds side x ↔ inSide side x = true := by
        have hle := hfits.1
        rw [BetweenEnds, Nat.mod_eq_of_lt hread.1.1, Nat.mod_eq_of_lt hread.1.2, inSide,
          decide_eq_true_iff]
        omega
      rw [List.forall₂_cons, List.zip_cons_cons, List.all_cons, Bool.and_eq_true, hhead,
        ih (Nat.succ.inj hlength) hread.2 hfits.2]

end

/-- Comparing with the ends of a readable box tells whether a window lies in it. -/
theorem betweenEnds_iff_inBox (h : p.Checked) {box : DispatchBox} (hbox : box ∈ p.consumers)
    (hreadable : p.Readable box) {position : List Nat}
    (hlength : position.length = (p.sides box).length) {b : Bool}
    (hinBox : p.inBox box position = .ok b) :
    (p.fits box = true ∧ List.Forall₂ BetweenEnds (p.sides box) position) ↔ b = true := by
  rw [inBox_eq h hbox] at hinBox
  rw [within_of_ok hlength hinBox]
  refine ⟨fun ⟨hfits, hbetween⟩ => ?_, fun hall => ?_⟩
  · have hsizes := (fits_iff h hbox).mp hfits
    exact (betweenEnds_iff_inSide hlength (hreadable hfits) hsizes).mp hbetween
  · have hsize := size_le_of_inSide hlength hall
    have hfits := (fits_iff h hbox).mpr hsize
    exact ⟨hfits, (betweenEnds_iff_inSide hlength (hreadable hfits) hsize).mpr hall⟩

/-- A module has the logic of a router. -/
structure HasLogic (p : DispatchPlan) (counters : List ScanCounter) (m : Module) : Prop where
  declared : ∀ c ∈ counters, (c.register, c.width) ∈ m.signals
  boxes : ∀ i (hi : i < p.consumers.length), (inBoxSignal i, 1) ∈ m.signals
    ∧ ∃ cond, p.boxCondition counters p.consumers[i] = .ok cond
      ∧ .assign (.ref (inBoxSignal i)) cond ∈ m.body
  accept : ("accept", 1) ∈ m.signals
  accepts : .assign (.ref "accept") (.and (.ref "in_valid") (.ref "in_ready")) ∈ m.body
  updates : ∀ move ∈ ScanCounter.moves [.ref "accept"] counters,
    ∃ items, counterUpdate move = .ok items ∧ ∀ i ∈ items, i ∈ m.body
  finishes : .assign (.ref donePort)
    (.and (.ref "accept") (ScanCounter.allAtLast counters)) ∈ m.body

theorem body_ok {m : Module} (h : p.body counters = .ok m.body) : p.HasLogic counters m := by
  have haccept := Body.join_net h (List.mem_of_getElem? (i := 3) rfl)
  exact {
    declared := fun c hc => by
      rcases Body.join_ok h _ (List.mem_of_getElem? (i := 0) rfl) with ⟨own, hown, hsub⟩
      exact Module.signals_of_reg (hsub _ (Body.join_reg hown (List.mem_map_of_mem hc)))
    -- One signal for each box, in the order of the consumers.
    boxes := fun i hi => by
      rcases Body.join_ok h _ (List.mem_of_getElem? (i := 1) rfl) with ⟨own, hown, hsub⟩
      have hmem : (p.boxCondition counters p.consumers[i] >>= Body.net (inBoxSignal i) 1)
          ∈ p.consumers.mapIdx fun c box =>
            p.boxCondition counters box >>= Body.net (inBoxSignal c) 1 :=
        List.mem_mapIdx.mpr ⟨i, hi, rfl⟩
      rcases Body.join_ok hown _ hmem with ⟨items, hitems, hsub'⟩
      rcases Fallible.bind_ok.mp hitems with ⟨cond, hcond, hnet⟩
      rcases Body.net_ok hnet with ⟨hwire, hassign⟩
      exact ⟨Module.signals_of_wire (hsub _ (hsub' _ hwire)), cond, hcond,
        hsub _ (hsub' _ hassign)⟩
    accept := Module.signals_of_wire haccept.1
    accepts := haccept.2
    updates := fun move hmove => by
      rcases Body.join_ok h _ (List.mem_of_getElem? (i := 5) rfl) with ⟨own, hown, hsub⟩
      rcases Body.join_ok hown _ (List.mem_map_of_mem hmove) with ⟨items, hitems, hsub'⟩
      exact ⟨items, hitems, fun i hi => hsub i (hsub' i hi)⟩
    finishes := Body.join_assign h (List.mem_of_getElem? (i := 6) rfl) }

/-- A position that is reached from zero. -/
def Reaches (p : DispatchPlan) (position : List Nat) : Prop :=
  ∃ k answer, p.after k = .ok answer ∧ answer.2 = position

theorem reaches_zero (p : DispatchPlan) : p.Reaches (p.sizes.map fun _ => 0) := ⟨0, _, rfl, rfl⟩

namespace Reaches

variable {position : List Nat}

theorem next (h : p.Reaches position) {answer : Bool × List Nat}
    (hstep : p.step position = .ok answer) : p.Reaches answer.2 := by
  rcases h with ⟨k, before, hbefore, rfl⟩
  exact ⟨k + 1, answer, Fallible.bind_ok.mpr ⟨before, hbefore, hstep⟩, rfl⟩

/-- The positions that are reached are those of the walk. -/
theorem position_eq (h : p.Reaches position) (hchecked : p.Checked) :
    ∃ k < Scan.visits p.bounds, position = Scan.position p.bounds k := by
  rcases h with ⟨k, answer, hafter, rfl⟩
  refine ⟨_, Nat.mod_lt k (Scan.visits_pos p.bounds), ?_⟩
  rw [after_of_ok hchecked hafter]

theorem mem_positions (h : p.Reaches position) (hchecked : p.Checked) :
    position ∈ Scan.positions p.bounds := by
  rcases h.position_eq hchecked with ⟨k, hk, rfl⟩
  rw [Scan.positions_eq_map_position]
  exact List.mem_map_of_mem (List.mem_range.mpr hk)

/-- From each of them there is a next one, if the counters stay in words. -/
theorem step_returns (h : p.Reaches position) (hchecked : p.Checked) (hwords : p.StaysInWords) :
    ∃ answer, p.step position = .ok answer := by
  rcases h.position_eq hchecked with ⟨k, hk, rfl⟩
  rw [step_eq hchecked]
  exact (Scan.stepCounters_returns_iff (bounds_step_pos hchecked)).mpr hwords k hk

end Reaches

theorem counts_bounds (hcounts : List.Forall₂ CountsSide counters p.dimensions) :
    List.Forall₂ ScanCounter.Counts counters p.bounds := by
  rw [bounds, List.forall₂_map_right_iff]
  exact hcounts.imp fun _ _ hside => hside.2

namespace HasLogic

variable {library : String → Option Module} {m : Module} {Γ : Typing} {τ : Nat → State}
  (hlogic : p.HasLogic counters m) (h : m.Runs library Γ τ)

include hlogic h

/-- A window is taken when it is accepted. -/
theorem accept_iff (hin : ("in_valid", 1) ∈ m.signals ∧ ("in_ready", 1) ∈ m.signals) (t : Nat) :
    (τ t).value "accept" = 1 ↔ (τ t).Moves "in" :=
  h.bit_iff hlogic.accept hlogic.accepts ((h.isBit hin.1 t).and (h.isBit hin.2 t))

section

variable (hclear : (reset, 1) ∈ m.signals) (hstart : (startPort, 1) ∈ m.signals) {t : Nat}

include hclear hstart

/-- A reset or a start puts the counters to zero. -/
theorem held_cleared (hcleared : (τ t).value reset = 1 ∨ (τ t).value startPort = 1) :
    ScanCounter.held counters (τ (t + 1)) = counters.map fun _ => 0 := by
  refine List.map_congr_left fun c hc => ?_
  rw [← ScanCounter.map_fst_moves [.ref "accept"] counters] at hc
  rcases List.mem_map.mp hc with ⟨move, hmove, rfl⟩
  rcases hlogic.updates move hmove with ⟨items, hitems, hsub⟩
  rw [h.register_next hitems hsub, State.firstHolding, State.firstHolding, Expr.assigned_zero]
  by_cases hreset : (τ t).value reset = 1
  · rw [if_pos ((h.isBit hclear t).own_ne_zero.mpr hreset)]
  · rw [if_neg (mt (h.isBit hclear t).own_ne_zero.mp hreset),
      if_pos ((h.isBit hstart t).own_ne_zero.mpr (hcleared.resolve_left hreset))]

/-- Otherwise they move as they are told to. -/
theorem register_moves (hreset : (τ t).value reset ≠ 1) (hquiet : (τ t).value startPort ≠ 1) :
    ∀ move ∈ ScanCounter.moves [.ref "accept"] counters, (τ (t + 1)).value move.1.register
      = if move.2.own Γ (τ t) ≠ 0 then move.1.next.assigned Γ (τ t) move.1.width
        else (τ t).value move.1.register := by
  intro move hmove
  have hmem : move.1 ∈ counters := by
    rw [← ScanCounter.map_fst_moves [.ref "accept"] counters]
    exact List.mem_map_of_mem hmove
  rcases hlogic.updates move hmove with ⟨items, hitems, hsub⟩
  rw [h.register_next hitems hsub, State.firstHolding, State.firstHolding, State.firstHolding,
    State.firstHolding, h.width_eq (hlogic.declared _ hmem),
    if_neg (mt (h.isBit hclear t).own_ne_zero.mp hreset),
    if_neg (mt (h.isBit hstart t).own_ne_zero.mp hquiet)]

variable (hheld : ∀ s, ScanCounter.held counters s = p.held s)
  (hcounts : List.Forall₂ CountsSide counters p.dimensions)

include hheld hcounts

/-- The counters stay where they are until a window is taken. -/
theorem held_stays (hreset : (τ t).value reset ≠ 1) (hquiet : (τ t).value startPort ≠ 1)
    (haccept : (τ t).value "accept" ≠ 1) : p.held (τ (t + 1)) = p.held (τ t) := by
  rw [← hheld, ← hheld]
  exact ScanCounter.held_of_not (counts_bounds hcounts) (.cons (h.isBit hlogic.accept t) .nil)
    (hlogic.register_moves h hclear hstart hreset hquiet)
    fun hall => haccept (hall _ (List.mem_singleton_self _))

variable (hchecked : p.Checked)

include hchecked

/-- Then they move as the geometry says. -/
theorem held_next (hreset : (τ t).value reset ≠ 1) (hquiet : (τ t).value startPort ≠ 1)
    {answer : Bool × List Nat} (hstep : p.step (p.held (τ t)) = .ok answer)
    (haccept : (τ t).value "accept" = 1) :
    p.held (τ (t + 1)) = answer.2 := by
  rw [step_eq hchecked, ← hheld] at hstep
  rw [← hheld]
  exact ScanCounter.held_of_moves (counts_bounds hcounts)
    (.cons (h.isBit hlogic.accept t) .nil) (hlogic.register_moves h hclear hstart hreset hquiet)
    (List.forall_mem_singleton.mpr haccept) (fun c hc => h.width_eq (hlogic.declared c hc))
    hstep

/-- From the reset on the counters hold positions of the walk. -/
theorem reaches_held (hfrom : FromReset τ) (hwords : p.StaysInWords) (t : Nat) :
    p.Reaches (p.held (τ (t + 1))) := by
  -- The walk begins anew at the reset and at every start.
  have hzero : ∀ u, (τ u).value reset = 1 ∨ (τ u).value startPort = 1 →
      p.Reaches (p.held (τ (u + 1))) := by
    intro u hcleared
    have hlength : (counters.map fun _ => 0) = p.sizes.map fun _ => 0 := by
      rw [List.map_const', List.map_const', hcounts.length_eq, ← map_sizes hchecked,
        List.length_map]
    rw [← hheld, hlogic.held_cleared h hclear hstart hcleared, hlength]
    exact reaches_zero p
  induction t with
  | zero => exact hzero 0 (.inl hfrom.first)
  | succ t ih =>
      have hreset : (τ (t + 1)).value reset ≠ 1 := by
        rw [hfrom.later]
        decide
      by_cases hquiet : (τ (t + 1)).value startPort = 1
      · exact hzero (t + 1) (.inr hquiet)
      · by_cases haccept : (τ (t + 1)).value "accept" = 1
        · rcases ih.step_returns hchecked hwords with ⟨answer, hstep⟩
          rw [hlogic.held_next h hclear hstart hheld hcounts hchecked hreset hquiet hstep haccept]
          exact ih.next hstep
        · rw [hlogic.held_stays h hclear hstart hheld hcounts hreset hquiet haccept]
          exact ih

end

end HasLogic

/-- The module of a router could be made. -/
theorem make_ok {c : Component} {shape : Shape} {w w' : Workshop} {name : String}
    (hshape : c.portShape "in" = .ok shape)
    (hlacks : w.library.Lacks (.dispatch shape.elem shape.extents p))
    (h : Returns (make c p) w name w') : p.check = .ok () ∧ ∃ counters m,
      w'.library.module? name = some m ∧ c.modulePorts = .ok m.ports ∧
        p.counters = .ok counters ∧ p.body counters = .ok m.body := by
  unfold make at h
  -- The steps of the maker, read off one after the other.
  rcases returns_lift_bind.mp h with ⟨shape', hshape', hrest⟩
  rcases Except.ok.inj (hshape.symm.trans hshape') with rfl
  rcases returns_lift_bind.mp hrest with ⟨_, hcheck, hnumber⟩
  rcases returns_bind.mp hnumber with ⟨number, r, hnumbered, hneeds⟩
  rcases Making.returns_numberOf.mp hnumbered with ⟨_, rfl⟩
  generalize s!"Dispatch_{shape.typeName}_#{number}" = chosen at hneeds
  -- A router for the same shapes and plan has not been made, so this is a new module.
  rcases Making.returns_of_lacks hlacks hneeds with ⟨hfree, hmade⟩
  rcases returns_lift_bind.mp hmade with ⟨ports, hports, hcounted⟩
  rcases returns_lift_bind.mp hcounted with ⟨counters, hcounters, hbodies⟩
  rcases returns_lift_bind.mp hbodies with ⟨items, hitems, hwarned⟩
  rcases returns_bind.mp hwarned with ⟨u, r, hwarn, hdefines⟩
  rcases returns_modify.mp hwarn with rfl
  rcases Making.module_of_define (w := ⟨r.library, r.warnings ++ p.warnings⟩) hfree hdefines
    with ⟨rfl, hmodule⟩
  exact ⟨hcheck, counters, ⟨name, ports, items⟩, hmodule, hports, hcounters, hitems⟩

/-- Wherever the counters of a router can come from zero, the hardware agrees with the
    geometry: the signal of a consumer compares the position with the ends of its box cut
    to the width of the counters, which tells whether the window lies in the box if no end
    is cut; and a window that is taken moves the counters, and reports the end of the
    walk, as a move of the geometry does, if that move stays in words. From the reset on
    the counters are nowhere else, if no move leaves the words. -/
theorem make_agrees {c : Component} {shape : Shape} {w w' : Workshop} {name : String}
    {m : Module} {Γ : Typing} {τ : Nat → State} {library : String → Option Module}
    (hsizes : ∀ size ∈ p.sizes, 1 ≤ size)
    (hin : c.portShape "in" = .ok shape) (hstream : shape.kind = .stream)
    (hstart : c.portShape startPort = .ok .bit) (hdone : c.portShape donePort = .ok .bit)
    (hlacks : w.library.Lacks (.dispatch shape.elem shape.extents p))
    (hmake : Returns (make c p) w name w') (hm : w'.library.module? name = some m)
    (h : m.Runs library Γ τ) :
    (∀ t, p.Reaches (p.held (τ t)) →
      (∀ i (hi : i < p.consumers.length),
        ((τ t).value (inBoxSignal i) = 1 ↔ p.fits p.consumers[i] = true
          ∧ List.Forall₂ BetweenEnds (p.sides p.consumers[i]) (p.held (τ t)))
        ∧ (p.Readable p.consumers[i] → ∀ b, p.inBox p.consumers[i] (p.held (τ t)) = .ok b →
          ((τ t).value (inBoxSignal i) = 1 ↔ b = true)))
      ∧ ∀ wraps next, p.step (p.held (τ t)) = .ok (wraps, next) → (τ t).Moves "in" →
        ((τ t).value donePort = 1 ↔ wraps = true)
          ∧ ((τ t).value reset ≠ 1 → (τ t).value startPort ≠ 1 → p.held (τ (t + 1)) = next))
    ∧ (FromReset τ → p.StaysInWords → ∀ t, p.Reaches (p.held (τ (t + 1)))) := by
  rcases make_ok hin hlacks hmake with ⟨hcheck, counters, m', hm', hports, hcounters, hbody⟩
  rcases Option.some.inj (hm.symm.trans hm') with rfl
  have hchecked := checked_of_check hcheck
  have hlogic := body_ok hbody
  rcases counters_ok hchecked hsizes hcounters with ⟨hheld, hcounts⟩
  have hclear := Component.reset_of_modulePorts hports
  have hstarts := Component.bit_of_modulePorts hports hstart
  have hdones := Component.bit_of_modulePorts hports hdone
  have hcarries := Component.carries_of_modulePorts hports hin hstream
  refine ⟨fun t hreaches => ⟨fun i hi => ?_, fun wraps next hstep hmoves => ?_⟩, ?_⟩
  -- The signal of a box is its condition, which compares the counters with the ends of the box.
  · rcases hlogic.boxes i hi with ⟨hsignal, cond, hcond, hassign⟩
    have hbox : p.consumers[i] ∈ p.consumers := List.getElem_mem hi
    have hinBox := h.bit_iff hsignal hassign
      (boxCondition_isBit hchecked hbox hcounts hcond (Γ := Γ) (s := τ t))
    rw [hheld] at hinBox
    refine ⟨hinBox, fun hreadable b hb => hinBox.trans ?_⟩
    exact betweenEnds_iff_inBox hchecked hbox hreadable
      (length_sides hchecked hbox (hreaches.mem_positions hchecked)) hb
  · have haccept := (hlogic.accept_iff h ⟨hcarries.valid, hcarries.ready⟩ t).mpr hmoves
    refine ⟨?_, fun hreset hquiet => ?_⟩
    -- The counters move as the walk does, and both wrap at the last position.
    · have hscan : stepCounters p.bounds (ScanCounter.held counters (τ t)) = .ok (wraps, next) := by
        rw [hheld, ← step_eq hchecked]
        exact hstep
      have hlast : (ScanCounter.allAtLast counters).IsBit Γ (τ t) (wraps = true) :=
        ScanCounter.isBit_allAtLast (counts_bounds hcounts) hscan
      rw [h.bit_iff hdones hlogic.finishes ((h.isBit hlogic.accept t).and hlast)]
      exact and_iff_right haccept
    · exact hlogic.held_next h hclear hstarts hheld hcounts hchecked hreset hquiet hstep
        haccept
  · intro hfrom hwords
    exact hlogic.reaches_held h hclear hstarts hheld hcounts hchecked hfrom hwords

/-- A router of windows of two elements with the geometry of the uneven one. -/
def unevenComponent : Component :=
  ⟨"DP_uneven", .dispatch unevenRouter, [(startPort, .bit), ("in", .stream (.uint 8) [2, 1])],
    [(donePort, .bit), ("out_0", .stream (.uint 8) [2, 1]), ("out_1", .stream (.uint 8) [2, 1])]⟩

/-- Its module. -/
def unevenWorkshop : Workshop := ((make unevenComponent unevenRouter).run.run .empty).2

/-- Six windows are sent through it, one in every cycle. -/
def unevenTrace : Trace where
  last := 7
  signals :=
    [("reset", [1]), ("in_value", [0, 1, 2, 3, 4, 5, 6]), ("in_valid", [0, 1, 1, 1, 1, 1, 1]),
     ("in_ready", [1, 1, 1, 1, 1, 1, 1, 1]), ("done_out", [0, 0, 0, 0, 0, 0, 1]),
     ("accept", [0, 1, 1, 1, 1, 1, 1]), ("ctr_0", [0, 0, 3, 6, 0, 3, 6, 0]),
     ("ctr_1", [0, 0, 0, 0, 2, 2, 2, 0]), ("inbox_0", [1, 1, 1, 0, 1, 1, 0, 1]),
     ("inbox_1", [0, 0, 0, 1, 0, 0, 1, 0]), ("out_0_value", [0, 1, 2, 3, 4, 5, 6]),
     ("out_0_valid", [0, 1, 1, 0, 1, 1, 0]), ("out_0_ready", [1, 1, 1, 1, 1, 1, 1, 1]),
     ("out_1_value", [0, 1, 2, 3, 4, 5, 6]), ("out_1_valid", [0, 0, 0, 1, 0, 0, 1]),
     ("out_1_ready", [1, 1, 1, 1, 1, 1, 1, 1])]
  cells := []

/-- The third window is for the second consumer, and the counters go on in the next row.
    The sixth one ends the walk. -/
theorem make_agrees_unevenRouter :
    unevenRouter.held (unevenTrace.state 3) = [6, 0]
      ∧ unevenRouter.held (unevenTrace.state 4) = [0, 2]
      ∧ ((unevenTrace.state 3).value (inBoxSignal 1) = 1 ↔ true = true)
      ∧ ((unevenTrace.state 3).value (inBoxSignal 0) = 1 ↔ false = true)
      ∧ ((unevenTrace.state 3).value donePort = 1 ↔ false = true)
      ∧ ((unevenTrace.state 6).value donePort = 1 ↔ true = true) := by
  have hmade : Returns (make unevenComponent unevenRouter) .empty "Dispatch_UInt8_2x1_#0"
      unevenWorkshop := Prod.ext (by decide +kernel) rfl
  have hruns : (unevenWorkshop.library.moduleD "Dispatch_UInt8_2x1_#0").Runs (fun _ => none)
      (unevenWorkshop.library.moduleD "Dispatch_UInt8_2x1_#0").typing unevenTrace.state :=
    Module.Follows.runs (by decide +kernel) (by decide +kernel)
  have hagrees := make_agrees (c := unevenComponent) (by decide +kernel) rfl rfl rfl rfl
    (fun d hd => absurd hd List.not_mem_nil) hmade
    (Library.module?_eq_moduleD (by decide +kernel)) hruns
  have hfrom : FromReset unevenTrace.state := Trace.fromReset (by decide) (by decide +kernel)
  have hreaches := hagrees.2 hfrom (by decide +kernel)
  -- Two windows have been taken before the third and five before the sixth.
  have hthird := hagrees.1 3 (hreaches 2)
  have hmoved := hthird.2 false [0, 2] (by decide +kernel) (by decide +kernel)
  have hsixth := (hagrees.1 6 (hreaches 5)).2 true [0, 0] (by decide +kernel) (by decide +kernel)
  exact ⟨by decide +kernel, hmoved.2 (by decide +kernel) (by decide +kernel),
    (hthird.1 1 (by decide)).2 (by decide +kernel) true (by decide +kernel),
    (hthird.1 0 (by decide)).2 (by decide +kernel) false (by decide +kernel), hmoved.1, hsixth.1⟩

/-- A router whose only box ends past the image. -/
def pastRouter : DispatchPlan := ⟨[1], [1], [4], [⟨"past", 1, [0], [5]⟩]⟩

def pastComponent : Component :=
  ⟨"DP_past", .dispatch pastRouter, [(startPort, .bit), ("in", .stream (.uint 8) [1])],
    [(donePort, .bit), ("out_0", .stream (.uint 8) [1])]⟩

def pastWorkshop : Workshop := ((make pastComponent pastRouter).run.run .empty).2

/-- Two windows are sent through it, the second of which nobody gets. -/
def pastTrace : Trace where
  last := 3
  signals :=
    [("reset", [1]), ("in_valid", [0, 1, 1]), ("in_ready", [1, 1, 1, 1]), ("accept", [0, 1, 1]),
     ("ctr_0", [0, 0, 1, 2]), ("inbox_0", [1, 1, 0, 0]), ("out_0_valid", [0, 1]),
     ("out_0_ready", [1, 1, 1, 1])]
  cells := []

/-- The window at the second position lies in the box, but the signal of the consumer is
    not set: the end of the box needs a bit more than the counter has. -/
theorem pastRouter_disagrees :
    pastRouter.check = .ok () ∧ (∀ size ∈ pastRouter.sizes, 1 ≤ size)
      ∧ Returns (make pastComponent pastRouter) .empty "Dispatch_UInt8_1_#0" pastWorkshop
      ∧ (pastWorkshop.library.moduleD "Dispatch_UInt8_1_#0").Runs (fun _ => none)
          (pastWorkshop.library.moduleD "Dispatch_UInt8_1_#0").typing pastTrace.state
      ∧ FromReset pastTrace.state ∧ pastRouter.after 1 = .ok (false, [1])
      ∧ pastRouter.held (pastTrace.state 2) = [1]
      ∧ pastRouter.inBox ⟨"past", 1, [0], [5]⟩ [1] = .ok true
      ∧ (pastTrace.state 2).value (inBoxSignal 0) ≠ 1 :=
  ⟨by decide +kernel, by decide +kernel, Prod.ext (by decide +kernel) rfl,
    Module.Follows.runs (by decide +kernel) (by decide +kernel),
    Trace.fromReset (by decide) (by decide +kernel), by decide +kernel, by decide +kernel,
    by decide +kernel, by decide +kernel⟩

end DispatchPlan

end StencilRtl
