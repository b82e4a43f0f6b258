import StencilRtl.Proofs.LineBuffer.Handshake
import StencilRtl.Proofs.Words

/-!
# The Column Stage

The column stage makes windows of the tiles of a row.

It keeps the last tiles in registers that shift whenever one is taken. So after any
number of cycles register `i` holds the tile that came `kept - i` before the next one,
once that many have come, and this is all there is to its memory: the counter says how
far into the row the next tile is, and nothing else is remembered between two tiles.
That the registers hold tiles of the row before at the beginning of a row does no harm,
since nothing is made of them there.

## Main definitions

* `ColumnStage.Fits`: The shapes go together and a window fits its row.
* `ColumnStage.gather`: What the stage makes of its tiles.
* `ColumnStage.HasLogic`: A module has the logic of a stage that keeps tiles.

## Theorems

* `ColumnStage.buffered_ok`: The logic is there if it could be built.
* `ColumnStage.HasLogic.buffer_eq`: What the registers hold.
* `ColumnStage.gathers`: The stage does what it is said to make.
-/

namespace StencilRtl

namespace ColumnStage

open Rtl

variable {s : ColumnStage} {kept bits : Nat}

/-- A window consists of the kept tiles and the live one, and a row of more tiles than
    are kept. -/
structure Fits (s : ColumnStage) (kept : Nat) : Prop where
  tile_pos : 0 < s.tile
  window_eq : s.window = s.tile * (kept + 1)
  kept_lt : kept < s.tilesPerRow

/-- What is made of neighbouring tiles. -/
def make (s : ColumnStage) (bits : Nat) (tiles : List Nat) : Nat :=
  brick bits s.window s.height 1 fun j r _ =>
    digit bits (tiles.getD (j / s.tile) 0) (j % s.tile + s.tile * r)

/-- What the stage makes of its tiles. -/
def gather (s : ColumnStage) (bits kept : Nat) : Gather :=
  ⟨1, s.tilesPerRow, kept, s.make bits⟩

/-- The elements of a window, from the signals they are found in. -/
def elements (s : ColumnStage) (kept bits : Nat) : List Rtl.Expr :=
  (List.range s.height).flatMap fun r => (List.range s.window).map fun j =>
    .part (.ref (tileSignal kept (j / s.tile))) ((j % s.tile + s.tile * r) * bits) bits

theorem Fits.buffers_ok (hfits : s.Fits kept) {n : Nat} (h : s.buffers = .ok n) : n = kept := by
  rcases Fallible.bind_ok.mp h with ⟨q, hq, hsub⟩
  rcases Word.sub_eq_ok.mp hsub with ⟨_, hn⟩
  unfold Word.div at hq
  rw [if_neg (Nat.ne_of_gt hfits.tile_pos), hfits.window_eq,
    Nat.mul_div_cancel_left _ hfits.tile_pos] at hq
  rw [← hn, ← Except.ok.inj hq, Nat.add_sub_cancel]

theorem Fits.tile_lt (hfits : s.Fits kept) {j : Nat} (hj : j < s.window) :
    j / s.tile < kept + 1 :=
  Nat.div_lt_of_lt_mul (hfits.window_eq ▸ hj)

theorem windowElement_ok (hfits : s.Fits kept) {j r : Nat} {e : Rtl.Expr}
    (h : s.windowElement kept bits j r = .ok e) : e
      = .part (.ref (tileSignal kept (j / s.tile))) ((j % s.tile + s.tile * r) * bits) bits := by
  have htile := Nat.ne_of_gt hfits.tile_pos
  rcases Fallible.bind_ok.mp h with ⟨⟨tile, element⟩, hsource, helement⟩
  rcases Fallible.bind_ok.mp hsource with ⟨q, hq, hsource⟩
  rcases Fallible.bind_ok.mp hsource with ⟨c, hc, hsource⟩
  rcases Fallible.bind_ok.mp hsource with ⟨p, hp, hsource⟩
  rcases Fallible.bind_ok.mp hsource with ⟨a, ha, hpair⟩
  rcases Fallible.bind_ok.mp helement with ⟨low, hlow, hpart⟩
  rw [Word.div, if_neg htile] at hq
  rw [Word.mod, if_neg htile] at hc
  rcases Except.ok.inj hpair with ⟨⟩
  rw [← Except.ok.inj hpart, ← (Word.mul_eq_ok.mp hlow).2, ← (Word.add_eq_ok.mp ha).2,
    ← (Word.mul_eq_ok.mp hp).2, ← Except.ok.inj hq, ← Except.ok.inj hc]

theorem windowElements_ok (hfits : s.Fits kept) {es : List Rtl.Expr}
    (h : s.windowElements kept bits = .ok es) : es = s.elements kept bits := by
  rcases Fallible.bind_ok.mp h with ⟨rows, hrows, hes⟩
  have hmap := Fallible.mapM_eq_map
    (g := fun r => (List.range s.window).map fun j => Rtl.Expr.part
      (.ref (tileSignal kept (j / s.tile))) ((j % s.tile + s.tile * r) * bits) bits)
    (fun r _ row hrow => Fallible.mapM_eq_map (fun j _ e he => windowElement_ok hfits he) hrow)
    hrows
  rw [← Except.ok.inj hes, hmap]
  rfl

/-- A module has the logic of a stage that keeps tiles. -/
structure HasLogic (s : ColumnStage) (kept bits : Nat) (m : Module) : Prop where
  buffer : ∀ i < kept, (tileSignal kept i, s.tile * s.height * bits) ∈ m.signals
  col : ("col", bitsNeededFor s.tilesPerRow) ∈ m.signals
  emit : ("emit", 1) ∈ m.signals
  accept : ("accept", 1) ∈ m.signals
  emits : .assign (.ref "emit")
    (.binary .ge (.ref "col") (.literal (bitsNeededFor s.tilesPerRow) kept)) ∈ m.body
  valid : .assign (.ref "out_valid") (.and (.ref "in_valid") (.ref "emit")) ∈ m.body
  ready : .assign (.ref "in_ready") (.or (.ref "out_ready") (.not (.ref "emit"))) ∈ m.body
  accepts : .assign (.ref "accept") (.and (.ref "in_valid") (.ref "in_ready")) ∈ m.body
  counter : ∃ items, cyclicCounter "col" (bitsNeededFor s.tilesPerRow) (s.tilesPerRow - 1) "accept"
    = .ok items ∧ ∀ i ∈ items, i ∈ m.body
  shift : ∀ i < kept, ∃ items, shift kept i = .ok items ∧ ∀ i ∈ items, i ∈ m.body
  value : .assign (.ref "out_value") (.concat (s.elements kept bits)) ∈ m.body

/-- The logic is there if it could be built. -/
theorem buffered_ok (hfits : s.Fits kept) {m : Module} {items : List Item}
    (h : s.buffered kept bits = .ok items) (hsub : ∀ i ∈ items, i ∈ m.body) :
    s.HasLogic kept bits m := by
  rcases Fallible.bind_ok.mp h with ⟨area, harea, h⟩
  rcases Fallible.bind_ok.mp h with ⟨tileWidth, hwidth, h⟩
  rcases Fallible.bind_ok.mp h with ⟨last, hlast, h⟩
  rcases Word.mul_eq_ok.mp harea with ⟨_, rfl⟩
  rcases Word.mul_eq_ok.mp hwidth with ⟨_, rfl⟩
  rcases Word.sub_eq_ok.mp hlast with ⟨_, rfl⟩
  have hcol := Body.join_reg h (List.mem_of_getElem? (i := 1) rfl)
  have hemit := Body.join_net h (List.mem_of_getElem? (i := 2) rfl)
  have haccept := Body.join_net h (List.mem_of_getElem? (i := 5) rfl)
  -- What is declared comes first, then what is assigned, then what changes at the clock.
  refine ⟨?_, ?_, ?_, ?_, ?_, ?_, ?_, ?_, ?_, ?_, ?_⟩
  · intro i hi
    rcases Body.join_ok h _ (List.mem_cons_self ..) with ⟨regs, hregs, hin⟩
    have hreg := Body.join_reg hregs (List.mem_map.mpr ⟨i, List.mem_range.mpr hi, rfl⟩)
    exact Module.signals_of_reg (hsub _ (hin _ hreg))
  · exact Module.signals_of_reg (hsub _ hcol)
  · exact Module.signals_of_wire (hsub _ hemit.1)
  · exact Module.signals_of_wire (hsub _ haccept.1)
  · exact hsub _ hemit.2
  · exact hsub _ (Body.join_assign h (by simp))
  · exact hsub _ (Body.join_assign h (by simp))
  · exact hsub _ haccept.2
  · exact Body.join_part h hsub (List.mem_of_getElem? (i := 6) rfl)
  · intro i hi
    rcases Body.join_part h hsub (List.mem_of_getElem? (i := 7) rfl) with ⟨shifts, hshifts, hin⟩
    exact Body.join_part hshifts hin (List.mem_map.mpr ⟨i, List.mem_range.mpr hi, rfl⟩)
  · rcases Body.join_part h hsub (List.mem_of_getElem? (i := 8) rfl) with ⟨own, hown, hin⟩
    rcases Fallible.bind_ok.mp hown with ⟨es, hes, hassign⟩
    rcases Except.ok.inj hassign with ⟨⟩
    rw [← windowElements_ok hfits hes]
    exact hin _ (List.mem_singleton_self _)

namespace HasLogic

variable {library : String → Option Module} {m : Module} {Γ : Typing} {τ : Nat → State}

section

variable (hlogic : s.HasLogic kept bits m) (hfits : s.Fits kept) (h : m.Runs library Γ τ)
  (hreset : FromReset τ) (hclear : (reset, 1) ∈ m.signals)
  (hin : m.Carries "in" (s.tile * s.height * bits))

include hlogic h hin

theorem accept_iff (t : Nat) : (τ t).value "accept" = 1 ↔ (τ t).Moves "in" :=
  h.bit_iff hlogic.accept hlogic.accepts ((h.isBit hin.valid t).and (h.isBit hin.ready t))

include hfits hreset hclear

/-- The counter tells how far into its row the next tile is. -/
theorem col_eq (t : Nat) :
    (τ (t + 1)).value "col" = (transfers τ "in" t).length % s.tilesPerRow := by
  have hkept := hfits.kept_lt
  have hroom := le_two_pow_bitsNeededFor s.tilesPerRow
  rcases hlogic.counter with ⟨items, hitems, hsub⟩
  have hcount := h.cyclicCounter_counts hreset hclear hitems hsub hlogic.col hlogic.accept
    (by omega) (n := fun t => (transfers τ "in" t).length) rfl (by
      intro t
      rw [length_transfers_succ]
      exact congrArg _ (if_congr (hlogic.accept_iff h hin (t + 1)).symm rfl rfl)) t
  rw [hcount, Nat.sub_add_cancel (by omega)]

theorem emit_iff (t : Nat) : (τ (t + 1)).value "emit" = 1
    ↔ (s.gather bits kept).Emits (transfers τ "in" t).length := by
  have hroom := le_two_pow_bitsNeededFor s.tilesPerRow
  have hbit := h.bit_iff (t := t + 1) hlogic.emit hlogic.emits
    (Expr.isBit_ge (Nat.lt_of_lt_of_le hfits.kept_lt hroom))
  rw [hbit, hlogic.col_eq hfits h hreset hclear hin, Gather.Emits, gather, Nat.div_one]

omit hfits hreset hclear

/-- A register becomes the tile after it when a tile is taken. -/
theorem buffer_next {i : Nat} (hi : i < kept) (t : Nat) :
    (τ (t + 1)).value (tileSignal kept i)
      = if (τ t).Moves "in" then (τ t).value (tileSignal kept (i + 1))
        else (τ t).value (tileSignal kept i) := by
  rcases hlogic.shift i hi with ⟨items, hitems, hsub⟩
  have hwidth := h.width_eq (hlogic.buffer i hi)
  have hsmall : (τ t).value (tileSignal kept (i + 1)) < 2 ^ (s.tile * s.height * bits) := by
    by_cases hlast : i + 1 < kept
    · exact h.value_lt (hlogic.buffer (i + 1) hlast) t
    · rw [tileSignal, if_neg hlast]
      exact h.value_lt hin.value t
  have haccept := (h.isBit hlogic.accept t).own_ne_zero.trans (hlogic.accept_iff h hin t)
  rw [h.enabled_next hitems hsub, State.firstHolding, State.firstHolding, hwidth,
    Expr.assigned_ref hsmall]
  exact if_congr haccept rfl rfl

/-- The registers hold the last tiles. -/
theorem buffer_eq (t : Nat) : ∀ i < kept, kept ≤ (transfers τ "in" t).length + i →
    (τ (t + 1)).value (tileSignal kept i)
      = (transfers τ "in" t).getD ((transfers τ "in" t).length + i - kept) 0 := by
  -- Induction on the cycles. A register takes over what the next one held, the last
  -- one takes the tile itself.
  induction t with
  | zero =>
      intro i hi hle
      rw [transfers_zero, List.length_nil] at hle
      omega
  | succ t ih =>
      intro i hi hle
      rw [hlogic.buffer_next h hin hi (t + 1)]
      rw [length_transfers_succ] at hle ⊢
      rw [transfers_succ]
      by_cases hmoves : (τ (t + 1)).Moves "in"
      · rw [if_pos hmoves] at hle
        rw [if_pos hmoves, if_pos hmoves, if_pos hmoves]
        by_cases hlast : i + 1 < kept
        · rw [ih (i + 1) hlast (by omega), List.getD_append _ _ _ _ (by omega)]
          exact congrArg ((transfers τ "in" t).getD · 0) (by omega)
        · rw [tileSignal, if_neg hlast, (by omega : (transfers τ "in" t).length + 1 + i - kept
            = (transfers τ "in" t).length)]
          exact (getD_concat_length _ _).symm
      · rw [if_neg hmoves] at hle
        rw [if_neg hmoves, if_neg hmoves, if_neg hmoves, List.append_nil]
        exact ih i hi hle

end

/-- The window that is offered, from the signals its elements are found in. -/
theorem value_eq (hlogic : s.HasLogic kept bits m) (hfits : s.Fits kept) (h : m.Runs library Γ τ)
    (hin : m.Carries "in" (s.tile * s.height * bits))
    (hout : m.Carries "out" (s.window * s.height * bits)) (t : Nat) :
    (τ t).value "out_value" = brick bits s.window s.height 1 fun j r _ =>
      digit bits ((τ t).value (tileSignal kept (j / s.tile))) (j % s.tile + s.tile * r) := by
  -- Every element lies in the tile it is taken from, whether that is a kept one or the input.
  have hroom : ∀ j < s.window, ∀ r < s.height,
      (j % s.tile + s.tile * r) * bits + bits ≤ Γ.width (tileSignal kept (j / s.tile)) := by
    intro j hj r hr
    have hplace : j % s.tile + s.tile * r < s.tile * s.height :=
      pair_lt (Nat.mod_lt _ hfits.tile_pos) hr
    have hbits : (j % s.tile + s.tile * r + 1) * bits ≤ s.tile * s.height * bits :=
      Nat.mul_le_mul_right bits hplace
    have hwidth : Γ.width (tileSignal kept (j / s.tile)) = s.tile * s.height * bits := by
      by_cases hkept : j / s.tile < kept
      · exact h.width_eq (hlogic.buffer _ hkept)
      · rw [tileSignal, if_neg hkept]
        exact h.width_eq hin.value
    rw [hwidth]
    rw [Nat.add_mul, Nat.one_mul] at hbits
    exact hbits
  have hwidth : Γ.width "out_value" = s.window * s.height * bits := h.width_eq hout.value
  have helements : s.elements kept bits = (List.range 1).flatMap fun _ => s.elements kept bits := by
    rw [List.range_one, List.flatMap_singleton]
  rw [h.assigned hlogic.value, helements, hwidth]
  refine Expr.assigned_brick (fun j hj r hr k _ => hroom j hj r hr) ?_
  rw [Nat.mul_one]

/-- A stage that keeps tiles does what it is said to make. -/
theorem gathers (hlogic : s.HasLogic kept bits m) (hfits : s.Fits kept) (h : m.Runs library Γ τ)
    (hreset : FromReset τ) (hclear : (reset, 1) ∈ m.signals)
    (hin : m.Carries "in" (s.tile * s.height * bits))
    (hout : m.Carries "out" (s.window * s.height * bits)) :
    Gathers τ (s.gather bits kept) "in" "out" := by
  have hemit := hlogic.emit_iff hfits h hreset hclear hin
  refine ⟨fun t => ?_, fun t => ?_, fun t hemits => ?_⟩
  · rw [← hemit t]
    exact h.bit_iff hin.ready hlogic.ready
      ((h.isBit hout.ready (t + 1)).or (h.isBit hlogic.emit (t + 1)).not)
  · rw [← hemit t]
    exact h.bit_iff hout.valid hlogic.valid
      ((h.isBit hin.valid (t + 1)).and (h.isBit hlogic.emit (t + 1)))
  · have hkept : kept ≤ (transfers τ "in" t).length := by
      have hle : kept ≤ (transfers τ "in" t).length / 1 % s.tilesPerRow := hemits
      rw [Nat.div_one] at hle
      exact Nat.le_trans hle (Nat.mod_le _ _)
    refine (hlogic.value_eq hfits h hin hout (t + 1)).trans (brick_congr fun j hj r _ k _ => ?_)
    have htile := hfits.tile_lt hj
    have hsource : ((s.gather bits kept).sources (transfers τ "in" t
        ++ [(τ (t + 1)).value "in_value"]) (transfers τ "in" t).length).getD (j / s.tile) 0
          = (transfers τ "in" t ++ [(τ (t + 1)).value "in_value"]).getD
              ((transfers τ "in" t).length + j / s.tile * 1 - kept * 1) 0 :=
      Gather.sources_getD (Nat.le_of_lt_succ htile)
    rw [Nat.mul_one, Nat.mul_one] at hsource
    refine congrArg (digit bits · _) (Eq.trans ?_ hsource.symm)
    generalize j / s.tile = q at htile ⊢
    -- The newest tile is on the input, and all others have been kept.
    by_cases hlast : q < kept
    · rw [List.getD_append _ _ _ _ (by omega)]
      exact hlogic.buffer_eq h hin t _ hlast (by omega)
    · rw [tileSignal, if_neg hlast,
        (by omega : (transfers τ "in" t).length + q - kept = (transfers τ "in" t).length)]
      exact (getD_concat_length _ _).symm

end HasLogic

/-- A tile that is a window already is what is made of it. -/
theorem make_passed (hfits : s.Fits 0) {v : Nat} (hv : v < 2 ^ (s.tile * s.height * bits)) :
    s.make bits [v] = v := by
  have hwindow : s.window = s.tile := by rw [hfits.window_eq, Nat.zero_add, Nat.mul_one]
  rw [Nat.mul_comm, Nat.pow_mul] at hv
  rw [make, hwindow]
  refine (brick_congr fun j hj r _ k _ => ?_).trans (brick_digit hv)
  rw [Nat.div_eq_of_lt hj, Nat.mod_eq_of_lt hj]
  rfl

/-- Tiles that are windows already pass through. -/
theorem passThrough_gathers (hfits : s.Fits 0) {library : String → Option Module} {m : Module}
    {Γ : Typing} {τ : Nat → State} (h : m.Runs library Γ τ)
    (hin : m.Carries "in" (s.tile * s.height * bits))
    (hout : m.Carries "out" (s.window * s.height * bits)) {items : List Item}
    (hbody : passThrough = .ok items) (hsub : ∀ i ∈ items, i ∈ m.body) :
    Gathers τ (s.gather bits 0) "in" "out" := by
  -- Nothing is kept, so that a window is one tile.
  have hwindow : s.window = s.tile := by rw [hfits.window_eq, Nat.zero_add, Nat.mul_one]
  have hemits : ∀ n, (s.gather bits 0).Emits n := fun n => Nat.zero_le _
  refine ⟨fun t => ?_, fun t => ?_, fun t _ => ?_⟩
  · have hready : (τ (t + 1)).value "in_ready" = 1 ↔ (τ (t + 1)).value "out_ready" = 1 :=
      h.bit_iff hin.ready (hsub _ (Body.join_assign hbody (by simp))) (h.isBit hout.ready (t + 1))
    exact hready.trans (or_iff_left (not_not_intro (hemits _))).symm
  · have hvalid : (τ (t + 1)).value "out_valid" = 1 ↔ (τ (t + 1)).value "in_valid" = 1 :=
      h.bit_iff hout.valid (hsub _ (Body.join_assign hbody (by simp))) (h.isBit hin.valid (t + 1))
    exact hvalid.trans (and_iff_left (hemits _)).symm
  · have hsmall : (τ (t + 1)).value "in_value" < 2 ^ (s.tile * s.height * bits) :=
      h.value_lt hin.value (t + 1)
    have hwidth : Γ.width "out_value" = s.window * s.height * bits := h.width_eq hout.value
    have hvalue : (τ (t + 1)).value "out_value" = (τ (t + 1)).value "in_value" := by
      rw [h.assigned (hsub _ (Body.join_assign hbody (List.mem_cons_self ..)))]
      refine Expr.assigned_ref ?_
      rw [hwidth, hwindow]
      exact hsmall
    refine hvalue.trans ((make_passed hfits hsmall).symm.trans (congrArg (s.make bits) ?_))
    exact congrArg (fun v => [v]) (getD_concat_length _ _).symm

/-- The stage does what it is said to make. -/
theorem gathers (hfits : s.Fits kept) {library : String → Option Module} {m : Module}
    {Γ : Typing} {τ : Nat → State} (h : m.Runs library Γ τ) (hreset : FromReset τ)
    (hclear : (reset, 1) ∈ m.signals) (hin : m.Carries "in" (s.tile * s.height * bits))
    (hout : m.Carries "out" (s.window * s.height * bits)) {items : List Item}
    (hbody : s.body bits = .ok items) (hsub : ∀ i ∈ items, i ∈ m.body) :
    Gathers τ (s.gather bits kept) "in" "out" := by
  rcases Fallible.bind_ok.mp hbody with ⟨n, hn, hlogic⟩
  rcases hfits.buffers_ok hn with rfl
  by_cases hkept : n = 0
  · rw [if_pos hkept] at hlogic
    subst hkept
    exact passThrough_gathers hfits h hin hout hlogic hsub
  · rw [if_neg hkept] at hlogic
    exact (buffered_ok hfits hlogic hsub).gathers hfits h hreset hclear hin hout

end ColumnStage

end StencilRtl
