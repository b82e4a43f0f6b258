import Std.Data.String.ToNat
import StencilRtl.Proofs.LineBuffer.Handshake
import StencilRtl.Proofs.Rtl.Cases
import StencilRtl.Proofs.Words

/-!
# The Row Stage

The row stage makes slices of the tiles of an image, each as tall as a window.

It keeps rows of tiles in memories that are used in turn, the live tile going over the
oldest one of its column. The counters say where in the image the next tile belongs and
whose turn it is. All three are functions of the number of tiles taken so far, and so is
the place a tile was put: tile `q` went to place `q % C` of memory `q / C % kept`, `C`
being the number of tiles in a row. It stays there until `kept` rows have been taken
after it, for only then does the same place come up again. `HasLogic.cell_eq` says that
and is the invariant of the stage. What is left in the memories of an image before is
not looked at, since nothing is made of the first rows.

The memories are chosen by labels of 32 bits, which would not tell more of them apart.
There never are more: the process that reads them has a branch for each turn and reads all
of them in each branch, and `HasLogic.kept_le` gets the bound from there.

## Main definitions

* `RowStage.Fits`: The shapes go together and a window fits the image.
* `RowStage.gather`: What the stage makes of its tiles.
* `RowStage.HasLogic`: A module has the logic of the stage.

## Theorems

* `RowStage.body_ok`: The logic is there if it could be built.
* `RowStage.HasLogic.cell_eq`: What the memories hold.
* `RowStage.HasLogic.gathers`: The stage does what it is said to make.
-/

namespace StencilRtl

namespace RowStage

open Rtl

variable {s : RowStage} {kept bits : Nat}

/-- A slice consists of the kept tiles and the live one, and an image of more rows than are
    kept. -/
structure Fits (s : RowStage) (kept : Nat) : Prop where
  tile0_pos : 0 < s.tile0
  tile1_pos : 0 < s.tile1
  window1_eq : s.window1 = s.tile1 * (kept + 1)
  tilesPerRow_pos : 0 < s.tilesPerRow
  kept_pos : 0 < kept
  kept_lt : kept < s.rows

/-- What is made of the tiles of a column. -/
def make (s : RowStage) (bits : Nat) (tiles : List Nat) : Nat :=
  brick bits s.tile0 s.window1 s.carry fun i j k =>
    digit bits (tiles.getD (j / s.tile1) 0) (i + s.tile0 * (j % s.tile1 + s.tile1 * k))

/-- What the stage makes of its tiles. -/
def gather (s : RowStage) (bits kept : Nat) : Gather :=
  ⟨s.tilesPerRow, s.rows, kept, s.make bits⟩

/-- The number of bits in a tile. -/
def tileBits (s : RowStage) (bits : Nat) : Nat := s.tile0 * s.tile1 * s.carry * bits

/-- The elements of a slice, from the signals they are found in. -/
def elements (s : RowStage) (kept bits : Nat) : List Rtl.Expr :=
  (List.range s.carry).flatMap fun k => (List.range s.window1).flatMap fun j =>
    (List.range s.tile0).map fun i => .part (.ref (rowSignal kept (j / s.tile1)))
      ((i + s.tile0 * (j % s.tile1 + s.tile1 * k)) * bits) bits

theorem Fits.buffers_ok (hfits : s.Fits kept) {n : Nat} (h : s.buffers = .ok n) : n = kept := by
  rcases Fallible.bind_ok.mp h with ⟨q, hq, hsub⟩
  rcases Word.sub_eq_ok.mp hsub with ⟨_, hn⟩
  unfold Word.div at hq
  rw [if_neg (Nat.ne_of_gt hfits.tile1_pos), hfits.window1_eq,
    Nat.mul_div_cancel_left _ hfits.tile1_pos] at hq
  rw [← hn, ← Except.ok.inj hq, Nat.add_sub_cancel]

theorem Fits.tile_lt (hfits : s.Fits kept) {j : Nat} (hj : j < s.window1) :
    j / s.tile1 < kept + 1 :=
  Nat.div_lt_of_lt_mul (hfits.window1_eq ▸ hj)

theorem sliceElement_ok (hfits : s.Fits kept) {i j k : Nat} {e : Rtl.Expr}
    (h : s.sliceElement kept bits i j k = .ok e) :
    e = .part (.ref (rowSignal kept (j / s.tile1)))
      ((i + s.tile0 * (j % s.tile1 + s.tile1 * k)) * bits) bits := by
  -- The steps of the computation one by one, and none of them divides by zero.
  have htile := Nat.ne_of_gt hfits.tile1_pos
  rcases Fallible.bind_ok.mp h with ⟨⟨row, element⟩, hsource, helement⟩
  rcases Fallible.bind_ok.mp hsource with ⟨q, hq, hsource⟩
  rcases Fallible.bind_ok.mp hsource with ⟨c, hc, hsource⟩
  rcases Fallible.bind_ok.mp hsource with ⟨p, hp, hsource⟩
  rcases Fallible.bind_ok.mp hsource with ⟨plane, hplane, hsource⟩
  rcases Fallible.bind_ok.mp hsource with ⟨o, ho, hsource⟩
  rcases Fallible.bind_ok.mp hsource with ⟨a, ha, hpair⟩
  rcases Fallible.bind_ok.mp helement with ⟨low, hlow, hpart⟩
  rw [Word.div, if_neg htile] at hq
  rw [Word.mod, if_neg htile] at hc
  rcases Except.ok.inj hpair with ⟨⟩
  rw [← Except.ok.inj hpart, ← (Word.mul_eq_ok.mp hlow).2, ← (Word.add_eq_ok.mp ha).2,
    ← (Word.mul_eq_ok.mp ho).2, ← (Word.add_eq_ok.mp hplane).2, ← (Word.mul_eq_ok.mp hp).2,
    ← Except.ok.inj hq, ← Except.ok.inj hc]

theorem sliceElements_ok (hfits : s.Fits kept) {es : List Rtl.Expr}
    (h : s.sliceElements kept bits = .ok es) : es = s.elements kept bits := by
  rcases Fallible.bind_ok.mp h with ⟨planes, hplanes, hes⟩
  have hmap := Fallible.mapM_eq_map
    (g := fun k => (List.range s.window1).map fun j => (List.range s.tile0).map fun i =>
      Rtl.Expr.part (.ref (rowSignal kept (j / s.tile1)))
        ((i + s.tile0 * (j % s.tile1 + s.tile1 * k)) * bits) bits)
    (fun k _ plane hplane => Fallible.mapM_eq_map (fun j _ column hcolumn =>
      Fallible.mapM_eq_map (fun i _ e he => sliceElement_ok hfits he) hcolumn) hplane)
    hplanes
  rw [← Except.ok.inj hes, hmap, List.map_map]
  rfl

/-- A module has the logic of a row stage. -/
structure HasLogic (s : RowStage) (kept bits : Nat) (m : Module) : Prop where
  memory : ∀ i < kept, (s!"mem_{i}", s.tileBits bits, s.tilesPerRow) ∈ m.memories
  read : ∀ i < kept, (rowSignal kept i, s.tileBits bits) ∈ m.signals
  col : ("col", bitsNeededFor s.tilesPerRow) ∈ m.signals
  row : ("row", bitsNeededFor s.rows) ∈ m.signals
  turn : ("widx", bitsNeededFor kept) ∈ m.signals
  feed : ("feed", 1) ∈ m.signals
  accept : ("accept", 1) ∈ m.signals
  rowEnd : ("row_end", 1) ∈ m.signals
  feeds : .assign (.ref "feed")
    (.binary .ge (.ref "row") (.literal (bitsNeededFor s.rows) kept)) ∈ m.body
  valid : .assign (.ref "col_in_valid") (.and (.ref "in_valid") (.ref "feed")) ∈ m.body
  ready : .assign (.ref "in_ready") (.or (.ref "col_in_ready") (.not (.ref "feed"))) ∈ m.body
  accepts : .assign (.ref "accept") (.and (.ref "in_valid") (.ref "in_ready")) ∈ m.body
  rowEnds : .assign (.ref "row_end") (.and (.ref "accept")
    (.hasValue "col" (bitsNeededFor s.tilesPerRow) (s.tilesPerRow - 1))) ∈ m.body
  colCounter : ∃ items, cyclicCounter "col" (bitsNeededFor s.tilesPerRow) (s.tilesPerRow - 1)
    "accept" = .ok items ∧ ∀ i ∈ items, i ∈ m.body
  rowCounter : ∃ items, cyclicCounter "row" (bitsNeededFor s.rows) (s.rows - 1) "row_end"
    = .ok items ∧ ∀ i ∈ items, i ∈ m.body
  turnCounter : ∃ items, cyclicCounter "widx" (bitsNeededFor kept) (kept - 1) "row_end"
    = .ok items ∧ ∀ i ∈ items, i ∈ m.body
  write : ∃ items, rowWrite kept = .ok items ∧ ∀ i ∈ items, i ∈ m.body
  reads : ∃ items, rowRead kept = .ok items ∧ ∀ i ∈ items, i ∈ m.body
  value : .assign (.ref "col_in_value") (.concat (s.elements kept bits)) ∈ m.body

/-- The logic is there if it could be built. -/
theorem body_ok (hfits : s.Fits kept) {m : Module} {items : List Item}
    (h : s.body bits = .ok items) (hsub : ∀ i ∈ items, i ∈ m.body) : s.HasLogic kept bits m := by
  rcases Fallible.bind_ok.mp h with ⟨n, hn, h⟩
  rcases hfits.buffers_ok hn with rfl
  rcases Fallible.bind_ok.mp h with ⟨area, harea, h⟩
  rcases Fallible.bind_ok.mp h with ⟨volume, hvolume, h⟩
  rcases Fallible.bind_ok.mp h with ⟨tileWidth, hwidth, h⟩
  rcases Fallible.bind_ok.mp h with ⟨lastColumn, hcolumn, h⟩
  rcases Fallible.bind_ok.mp h with ⟨lastRow, hrow, h⟩
  rcases Fallible.bind_ok.mp h with ⟨lastKept, hkept, h⟩
  rcases Word.mul_eq_ok.mp harea with ⟨_, rfl⟩
  rcases Word.mul_eq_ok.mp hvolume with ⟨_, rfl⟩
  rcases Word.mul_eq_ok.mp hwidth with ⟨_, rfl⟩
  rcases Word.sub_eq_ok.mp hcolumn with ⟨_, rfl⟩
  rcases Word.sub_eq_ok.mp hrow with ⟨_, rfl⟩
  rcases Word.sub_eq_ok.mp hkept with ⟨_, rfl⟩
  have hcol := Body.join_reg h (List.mem_of_getElem? (i := 1) rfl)
  have hrows := Body.join_reg h (List.mem_of_getElem? (i := 2) rfl)
  have hturn := Body.join_reg h (List.mem_of_getElem? (i := 3) rfl)
  have hfeed := Body.join_net h (List.mem_of_getElem? (i := 4) rfl)
  have haccept := Body.join_net h (List.mem_of_getElem? (i := 7) rfl)
  have hend := Body.join_net h (List.mem_of_getElem? (i := 8) rfl)
  rcases Body.join_ok h _ (List.mem_cons_self ..) with ⟨kepts, hkepts, hin⟩
  -- Each row that is kept has a memory and the register it is read into.
  have hdeclared : ∀ i < n, .memory s!"mem_{i}" (s.tileBits bits) s.tilesPerRow ∈ items ∧
      .reg (rowSignal n i) (s.tileBits bits) ∈ items := by
    intro i hi
    rcases Body.join_ok hkepts _ (List.mem_map.mpr ⟨i, List.mem_range.mpr hi, rfl⟩)
      with ⟨own, hown, hin'⟩
    rcases Body.join_ok hown _ (List.mem_cons_self ..) with ⟨mem, hmem, hin''⟩
    rcases Body.memory_ok hmem with ⟨_, rfl⟩
    have hreg := Body.join_reg hown (List.mem_of_getElem? (i := 1) rfl)
    exact ⟨hin _ (hin' _ (hin'' _ (List.mem_singleton_self _))), hin _ (hin' _ hreg)⟩
  refine ⟨?_, ?_, ?_, ?_, ?_, ?_, ?_, ?_, ?_, ?_, ?_, ?_, ?_, ?_, ?_, ?_, ?_, ?_, ?_⟩
  · exact fun i hi => Module.memories_of_memory (hsub _ (hdeclared i hi).1)
  · exact fun i hi => Module.signals_of_reg (hsub _ (hdeclared i hi).2)
  · exact Module.signals_of_reg (hsub _ hcol)
  · exact Module.signals_of_reg (hsub _ hrows)
  · exact Module.signals_of_reg (hsub _ hturn)
  · exact Module.signals_of_wire (hsub _ hfeed.1)
  · exact Module.signals_of_wire (hsub _ haccept.1)
  · exact Module.signals_of_wire (hsub _ hend.1)
  · exact hsub _ hfeed.2
  · exact hsub _ (Body.join_assign h (by simp))
  · exact hsub _ (Body.join_assign h (by simp))
  · exact hsub _ haccept.2
  · exact hsub _ hend.2
  · exact Body.join_part h hsub (List.mem_of_getElem? (i := 9) rfl)
  · exact Body.join_part h hsub (List.mem_of_getElem? (i := 10) rfl)
  · exact Body.join_part h hsub (List.mem_of_getElem? (i := 11) rfl)
  · exact Body.join_part h hsub (List.mem_of_getElem? (i := 12) rfl)
  · exact Body.join_part h hsub (List.mem_of_getElem? (i := 13) rfl)
  · rcases Body.join_part h hsub (List.mem_of_getElem? (i := 14) rfl) with ⟨own, hown, hin⟩
    rcases Fallible.bind_ok.mp hown with ⟨es, hes, hassign⟩
    rcases Except.ok.inj hassign with ⟨⟩
    rw [← sliceElements_ok hfits hes]
    exact hin _ (List.mem_singleton_self _)

/-- One more tile ends a row or does not. -/
theorem succ_div {width : Nat} (hwidth : 0 < width) (n : Nat) :
    (n + 1) / width = n / width + if n % width = width - 1 then 1 else 0 := by
  have hsplit := Nat.div_add_mod n width
  have hbelow := Nat.mod_lt n hwidth
  by_cases hlast : n % width = width - 1
  · have hnext : n + 1 = 0 + width * (n / width + 1) := by
      rw [Nat.mul_succ]
      omega
    rw [if_pos hlast, hnext, (pair_mod_div hwidth _).2]
  · have hnext : n + 1 = n % width + 1 + width * (n / width) := by omega
    rw [if_neg hlast, hnext, (pair_mod_div (by omega) _).2, Nat.add_zero]

/-- A place comes up again only after all memories have had their turn. -/
theorem same_place {width kept q n : Nat} (hcol : n % width = q % width)
    (hrow : n / width % kept = q / width % kept) (hlt : q < n) : q + kept * width ≤ n := by
  have hq := Nat.div_add_mod q width
  have hn := Nat.div_add_mod n width
  have hrows : q / width ≤ n / width := Nat.div_le_div_right (Nat.le_of_lt hlt)
  have hdvd : kept ∣ n / width - q / width :=
    Nat.dvd_of_mod_eq_zero (Nat.sub_mod_eq_zero_of_mod_eq hrow)
  have hne : n / width ≠ q / width := by
    intro heq
    rw [heq] at hn
    omega
  have hturns : kept ≤ n / width - q / width := Nat.le_of_dvd (by omega) hdvd
  have hle : width * (q / width + kept) ≤ width * (n / width) :=
    Nat.mul_le_mul_left _ (by omega)
  rw [Nat.mul_add, Nat.mul_comm width kept] at hle
  omega

/-- The place of the tile in an earlier row of the same column. -/
theorem earlier_place {width kept n i : Nat} (hwidth : 0 < width) (hrow : kept ≤ n / width)
    (_hi : i < kept) :
    (n + i * width - kept * width) % width = n % width ∧
      (n + i * width - kept * width) / width % kept = (n / width % kept + i) % kept := by
  have hsplit := Nat.div_add_mod n width
  have hplace : n + i * width - kept * width = n % width + width * (n / width + i - kept) := by
    have hrows : width * (n / width + i - kept) = width * (n / width + i) - width * kept :=
      Nat.mul_sub _ _ _
    have hle : width * kept ≤ width * (n / width) := Nat.mul_le_mul_left _ hrow
    rw [hrows, Nat.mul_add, Nat.mul_comm i, Nat.mul_comm kept]
    omega
  have hpair := pair_mod_div (Nat.mod_lt n hwidth) (n / width + i - kept)
  rw [hplace, hpair.1, hpair.2, Nat.mod_add_mod, ← Nat.add_mod_right (n / width + i - kept),
    (by omega : n / width + i - kept + kept = n / width + i)]
  exact ⟨rfl, rfl⟩

theorem memory_injective {i j : Nat} (h : s!"mem_{i}" = s!"mem_{j}") : i = j :=
  Nat.repr_injective ((String.append_right_inj _).mp h)

theorem read_injective {i j : Nat} (h : s!"rd_{i}" = s!"rd_{j}") : i = j :=
  Nat.repr_injective ((String.append_right_inj _).mp h)

theorem read_ne_col (i : Nat) : s!"rd_{i}" ≠ "col" := by
  intro h
  have hhead : (s!"rd_{i}").toList.head? = some 'r' := by
    rw [String.toList_append]
    rfl
  rw [h] at hhead
  exact absurd hhead (by decide)

namespace HasLogic

variable {library : String → Option Module} {m : Module} {Γ : Typing} {τ : Nat → State}

/-- The labels of the memories tell them apart. -/
theorem kept_le (hlogic : s.HasLogic kept bits m) : kept ≤ 2 ^ 32 := by
  rcases hlogic.reads with ⟨items, hitems, _⟩
  rcases Fallible.bind_ok.mp hitems with ⟨_, hcount, _⟩
  have hlt : kept * kept < UInt64.size := (Word.mul_eq_ok.mp hcount).1
  have hsize : UInt64.size = 2 ^ 32 * 2 ^ 32 := by simp [UInt64.size]
  by_contra hover
  have hover : 2 ^ 32 ≤ kept := by omega
  have hsquare := Nat.mul_le_mul hover hover
  omega

section

variable (hlogic : s.HasLogic kept bits m) (hfits : s.Fits kept) (h : m.Runs library Γ τ)
  (hreset : FromReset τ) (hclear : (reset, 1) ∈ m.signals)
  (hin : m.Carries "in" (s.tileBits bits))

include hlogic h hin

theorem accept_iff (t : Nat) : (τ t).value "accept" = 1 ↔ (τ t).Moves "in" :=
  h.bit_iff hlogic.accept hlogic.accepts ((h.isBit hin.valid t).and (h.isBit hin.ready t))

include hfits hreset hclear

theorem col_eq (t : Nat) :
    (τ (t + 1)).value "col" = (transfers τ "in" t).length % s.tilesPerRow := by
  have hpos := hfits.tilesPerRow_pos
  have hroom := le_two_pow_bitsNeededFor s.tilesPerRow
  rcases hlogic.colCounter with ⟨items, hitems, hsub⟩
  have hcount := h.cyclicCounter_counts hreset hclear hitems hsub hlogic.col hlogic.accept
    (by omega) (n := fun t => (transfers τ "in" t).length) rfl (by
      intro t
      rw [length_transfers_succ]
      exact congrArg _ (if_congr (hlogic.accept_iff h hin (t + 1)).symm rfl rfl)) t
  rw [hcount, Nat.sub_add_cancel (by omega)]

/-- The number of rows that have been taken moves on at the end of a row. -/
theorem rows_succ (t : Nat) : (transfers τ "in" (t + 1)).length / s.tilesPerRow
    = (transfers τ "in" t).length / s.tilesPerRow
      + if (τ (t + 1)).value "row_end" = 1 then 1 else 0 := by
  have hpos := hfits.tilesPerRow_pos
  have hroom := le_two_pow_bitsNeededFor s.tilesPerRow
  have hend : (τ (t + 1)).value "row_end" = 1 ↔ (τ (t + 1)).Moves "in" ∧
      (transfers τ "in" t).length % s.tilesPerRow = s.tilesPerRow - 1 := by
    rw [h.bit_iff hlogic.rowEnd hlogic.rowEnds ((h.isBit hlogic.accept (t + 1)).and
      (Expr.isBit_hasValue (by omega))), hlogic.accept_iff h hin,
      hlogic.col_eq hfits h hreset hclear hin]
  rw [length_transfers_succ]
  by_cases hmoves : (τ (t + 1)).Moves "in"
  · rw [if_pos hmoves, succ_div hpos]
    exact congrArg _ (if_congr (hend.trans (and_iff_right hmoves)).symm rfl rfl)
  · rw [if_neg hmoves, if_neg fun hc => hmoves (hend.mp hc).1, Nat.add_zero, Nat.add_zero]

theorem row_eq (t : Nat) : (τ (t + 1)).value "row"
    = (transfers τ "in" t).length / s.tilesPerRow % s.rows := by
  have hkept := hfits.kept_lt
  have hroom := le_two_pow_bitsNeededFor s.rows
  rcases hlogic.rowCounter with ⟨items, hitems, hsub⟩
  have hcount := h.cyclicCounter_counts hreset hclear hitems hsub hlogic.row hlogic.rowEnd
    (by omega) (n := fun t => (transfers τ "in" t).length / s.tilesPerRow)
    (Nat.zero_div _) (hlogic.rows_succ hfits h hreset hclear hin) t
  rw [hcount, Nat.sub_add_cancel (by omega)]

/-- The memory whose turn it is. -/
theorem turn_eq (t : Nat) : (τ (t + 1)).value "widx"
    = (transfers τ "in" t).length / s.tilesPerRow % kept := by
  have hkept := hfits.kept_pos
  have hroom := le_two_pow_bitsNeededFor kept
  rcases hlogic.turnCounter with ⟨items, hitems, hsub⟩
  have hcount := h.cyclicCounter_counts hreset hclear hitems hsub hlogic.turn hlogic.rowEnd
    (by omega) (n := fun t => (transfers τ "in" t).length / s.tilesPerRow)
    (Nat.zero_div _) (hlogic.rows_succ hfits h hreset hclear hin) t
  rw [hcount, Nat.sub_add_cancel (by omega)]

theorem feed_iff (t : Nat) : (τ (t + 1)).value "feed" = 1
    ↔ (s.gather bits kept).Emits (transfers τ "in" t).length := by
  have hroom := le_two_pow_bitsNeededFor s.rows
  have hbit := h.bit_iff (t := t + 1) hlogic.feed hlogic.feeds
    (Expr.isBit_ge (Nat.lt_of_lt_of_le hfits.kept_lt hroom))
  rw [hbit, hlogic.row_eq hfits h hreset hclear hin, Gather.Emits, gather]

/-- A cell becomes the live tile if it is its turn. -/
theorem cell_next {i place : Nat} (hi : i < kept) (hplace : place < s.tilesPerRow) (t : Nat) :
    (τ (t + 2)).cell s!"mem_{i}" place
      = if (τ (t + 1)).Moves "in" ∧
          (transfers τ "in" t).length / s.tilesPerRow % kept = i ∧
          (transfers τ "in" t).length % s.tilesPerRow = place then (τ (t + 1)).value "in_value"
        else (τ (t + 1)).cell s!"mem_{i}" place := by
  rcases hlogic.write with ⟨items, hitems, hsub⟩
  rcases Except.ok.inj hitems with ⟨⟩
  have hcol := hlogic.col_eq hfits h hreset hclear hin t
  have hturn := hlogic.turn_eq hfits h hreset hclear hin t
  have hmem : ∀ i < kept, Γ.cellWidth s!"mem_{i}" = s.tileBits bits ∧
      Γ.depth s!"mem_{i}" = s.tilesPerRow := fun i hi => h.memory_eq (hlogic.memory i hi)
  have hwrite := h.case_write (hsub _ (List.mem_singleton_self _)) hlogic.kept_le
    (fun _ _ => memory_injective) (fun i hi => (hmem i hi).1) (fun i hi => (hmem i hi).2) (t + 1)
    (h.isBit hlogic.accept (t + 1)) (by rw [hturn]; exact Nat.mod_lt _ hfits.kept_pos)
    (by rw [hcol]; exact Nat.mod_lt _ hfits.tilesPerRow_pos) (h.value_lt hin.value (t + 1))
    hi hplace
  rw [hwrite, hcol, hturn]
  exact if_congr (and_congr_left' (hlogic.accept_iff h hin (t + 1))) rfl rfl

/-- The memories hold the last rows of tiles, each tile where it was put when it was
    taken. -/
theorem cell_eq (t : Nat) : ∀ q < (transfers τ "in" t).length,
    (transfers τ "in" t).length ≤ q + kept * s.tilesPerRow →
      (τ (t + 1)).cell s!"mem_{q / s.tilesPerRow % kept}" (q % s.tilesPerRow)
        = (transfers τ "in" t).getD q 0 := by
  -- Induction on the cycles. A tile that is taken is put in its place, and that is not
  -- the place of any of the tiles that are still wanted.
  induction t with
  | zero => exact fun q hq => absurd hq (Nat.not_lt_zero q)
  | succ t ih =>
      intro q hq hle
      rw [hlogic.cell_next hfits h hreset hclear hin (Nat.mod_lt _ hfits.kept_pos)
        (Nat.mod_lt _ hfits.tilesPerRow_pos) t]
      rw [length_transfers_succ] at hq hle
      rw [transfers_succ]
      by_cases hmoves : (τ (t + 1)).Moves "in"
      · rw [if_pos hmoves] at hq hle
        rw [if_pos hmoves]
        by_cases hlive : q = (transfers τ "in" t).length
        · rw [hlive, if_pos ⟨hmoves, rfl, rfl⟩]
          exact (getD_concat_length _ _).symm
        · have hother : ¬((τ (t + 1)).Moves "in" ∧
              (transfers τ "in" t).length / s.tilesPerRow % kept = q / s.tilesPerRow % kept ∧
              (transfers τ "in" t).length % s.tilesPerRow = q % s.tilesPerRow) := by
            intro hsame
            have hagain := same_place hsame.2.2 hsame.2.1 (by omega)
            omega
          rw [if_neg hother, List.getD_append _ _ _ _ (by omega)]
          exact ih q (by omega) (by omega)
      · rw [if_neg hmoves] at hq hle
        rw [if_neg hmoves, if_neg fun hc => hmoves hc.1, List.append_nil]
        exact ih q hq hle

/-- What is read are the tiles of the rows before, the oldest one first. -/
theorem read_eq {t i : Nat} (hi : i < kept)
    (hrow : kept ≤ (transfers τ "in" t).length / s.tilesPerRow) :
    (τ (t + 1)).value (rowSignal kept i) = (transfers τ "in" t).getD
      ((transfers τ "in" t).length + i * s.tilesPerRow - kept * s.tilesPerRow) 0 := by
  rcases hlogic.reads with ⟨items, hitems, hsub⟩
  rcases Fallible.bind_ok.mp hitems with ⟨_, _, hitems⟩
  rcases Except.ok.inj hitems with ⟨⟩
  have hkept := hfits.kept_pos
  have hcol := hlogic.col_eq hfits h hreset hclear hin t
  have hturn := hlogic.turn_eq hfits h hreset hclear hin t
  -- Which memory is read into which register depends on the turn alone.
  have hrows : ∀ turn, rowsInOrder kept turn = (List.range kept).map fun i =>
      Stmt.set (.ref s!"rd_{i}") (.element s!"mem_{(turn + i) % kept}" (.ref "col")) := by
    refine fun turn => List.map_congr_left fun i hi => ?_
    rw [rowSignal, if_pos (List.mem_range.mp hi), rowElement]
  have hwidth : ∀ i < kept, Γ.width s!"rd_{i}" = s.tileBits bits := by
    intro i hi
    have hread := hlogic.read i hi
    rw [rowSignal, if_pos hi] at hread
    exact h.width_eq hread
  have hitem := hsub _ (List.mem_singleton_self _)
  simp only [hrows] at hitem
  have hread := h.case_read hitem hlogic.kept_le (fun _ _ => read_injective) read_ne_col hwidth
    (fun turn i => (h.memory_eq (hlogic.memory _ (Nat.mod_lt _ hkept))).1) (t + 1)
    (by rw [hturn]; exact Nat.mod_lt _ hkept) hi
  -- The memory at this turn holds the row that is `kept - i` rows before.
  have hplace := earlier_place hfits.tilesPerRow_pos hrow hi
  have hstride : i * s.tilesPerRow + s.tilesPerRow ≤ kept * s.tilesPerRow := by
    rw [← Nat.succ_mul]
    exact Nat.mul_le_mul_right _ hi
  have hpos := hfits.tilesPerRow_pos
  have hbefore : kept * s.tilesPerRow ≤ (transfers τ "in" t).length :=
    Nat.le_trans (Nat.mul_le_mul_right _ hrow) (Nat.div_mul_le_self _ _)
  have hcell := hlogic.cell_eq hfits h hreset hclear hin t
    ((transfers τ "in" t).length + i * s.tilesPerRow - kept * s.tilesPerRow) (by omega) (by omega)
  have hsmall : (transfers τ "in" t).getD
      ((transfers τ "in" t).length + i * s.tilesPerRow - kept * s.tilesPerRow) 0
        < 2 ^ s.tileBits bits := by
    rw [List.getD_eq_getElem _ _ (by omega)]
    exact transfers_lt h hin t _ (List.getElem_mem _)
  rw [hplace.1, hplace.2] at hcell
  rw [rowSignal, if_pos hi, hread, hcol, hturn, hcell, Nat.mod_eq_of_lt hsmall]

end

/-- The slice that is offered, from the signals its elements are found in. -/
theorem value_eq (hlogic : s.HasLogic kept bits m) (hfits : s.Fits kept) (h : m.Runs library Γ τ)
    (hin : m.Carries "in" (s.tileBits bits))
    (hout : m.Carries "col_in" (s.tile0 * s.window1 * s.carry * bits)) (t : Nat) :
    (τ t).value "col_in_value" = brick bits s.tile0 s.window1 s.carry fun i j k =>
      digit bits ((τ t).value (rowSignal kept (j / s.tile1)))
        (i + s.tile0 * (j % s.tile1 + s.tile1 * k)) := by
  -- Every element lies in the tile it is taken from, whether that was read back or is on the input.
  have hroom : ∀ i < s.tile0, ∀ j < s.window1, ∀ k < s.carry,
      (i + s.tile0 * (j % s.tile1 + s.tile1 * k)) * bits + bits
        ≤ Γ.width (rowSignal kept (j / s.tile1)) := by
    intro i hi j _ k hk
    have hplace : i + s.tile0 * (j % s.tile1 + s.tile1 * k) < s.tile0 * (s.tile1 * s.carry) :=
      pair_lt hi (pair_lt (Nat.mod_lt _ hfits.tile1_pos) hk)
    have hbits : (i + s.tile0 * (j % s.tile1 + s.tile1 * k) + 1) * bits ≤ s.tileBits bits := by
      rw [tileBits, Nat.mul_assoc s.tile0]
      exact Nat.mul_le_mul_right bits hplace
    have hwidth : Γ.width (rowSignal kept (j / s.tile1)) = s.tileBits bits := by
      by_cases hkept : j / s.tile1 < kept
      · exact h.width_eq (hlogic.read _ hkept)
      · rw [rowSignal, if_neg hkept]
        exact h.width_eq hin.value
    rw [hwidth]
    rw [Nat.add_mul, Nat.one_mul] at hbits
    exact hbits
  have hwidth : Γ.width "col_in_value" = s.tile0 * s.window1 * s.carry * bits :=
    h.width_eq hout.value
  rw [h.assigned hlogic.value, hwidth]
  refine Expr.assigned_brick hroom ?_
  rw [Nat.mul_assoc s.tile0 s.window1]

/-- A row stage does what it is said to make. -/
theorem gathers (hlogic : s.HasLogic kept bits m) (hfits : s.Fits kept) (h : m.Runs library Γ τ)
    (hreset : FromReset τ) (hclear : (reset, 1) ∈ m.signals)
    (hin : m.Carries "in" (s.tileBits bits))
    (hout : m.Carries "col_in" (s.tile0 * s.window1 * s.carry * bits)) :
    Gathers τ (s.gather bits kept) "in" "col_in" := by
  have hfeed := hlogic.feed_iff hfits h hreset hclear hin
  refine ⟨fun t => ?_, fun t => ?_, fun t hemits => ?_⟩
  · rw [← hfeed t]
    exact h.bit_iff hin.ready hlogic.ready
      ((h.isBit hout.ready (t + 1)).or (h.isBit hlogic.feed (t + 1)).not)
  · rw [← hfeed t]
    exact h.bit_iff hout.valid hlogic.valid
      ((h.isBit hin.valid (t + 1)).and (h.isBit hlogic.feed (t + 1)))
  · have hrow : kept ≤ (transfers τ "in" t).length / s.tilesPerRow :=
      Nat.le_trans hemits (Nat.mod_le _ _)
    have hbefore : kept * s.tilesPerRow ≤ (transfers τ "in" t).length :=
      Nat.le_trans (Nat.mul_le_mul_right _ hrow) (Nat.div_mul_le_self _ _)
    refine (hlogic.value_eq hfits h hin hout (t + 1)).trans (brick_congr fun i _ j hj k _ => ?_)
    have htile := hfits.tile_lt hj
    have hsource : ((s.gather bits kept).sources (transfers τ "in" t
        ++ [(τ (t + 1)).value "in_value"]) (transfers τ "in" t).length).getD (j / s.tile1) 0
          = (transfers τ "in" t ++ [(τ (t + 1)).value "in_value"]).getD
              ((transfers τ "in" t).length + j / s.tile1 * s.tilesPerRow
                - kept * s.tilesPerRow) 0 :=
      Gather.sources_getD (Nat.le_of_lt_succ htile)
    refine congrArg (digit bits · _) (Eq.trans ?_ hsource.symm)
    generalize j / s.tile1 = q at htile ⊢
    -- The tile of the newest row is on the input, and those of the others are read back.
    by_cases hlast : q < kept
    · have hstride : q * s.tilesPerRow + s.tilesPerRow ≤ kept * s.tilesPerRow := by
        rw [← Nat.succ_mul]
        exact Nat.mul_le_mul_right _ hlast
      have hpos := hfits.tilesPerRow_pos
      rw [List.getD_append _ _ _ _ (by omega)]
      exact hlogic.read_eq hfits h hreset hclear hin hlast hrow
    · rw [rowSignal, if_neg hlast, (by omega : q = kept), Nat.add_sub_cancel]
      exact (getD_concat_length _ _).symm

end HasLogic

end RowStage

end StencilRtl
