import StencilRtl.Hardware.Adapter
import StencilRtl.Proofs.Scan.Counters
import StencilRtl.Proofs.Words

/-!
# Frames of a Stream

How many windows a frame of a stream has, and the counters that follow them.

A stream that passed its checks has an image with as many extents as its windows have, and
each of them covers the window. Nothing in the checks keeps the number of windows in a word.
It is a product of any number of factors, and the function that computes it gives way where
the product leaves the word. The counters do not. Each of them only has to stay in the
word itself, and it does, for one step past its largest position is at most the extent of
the image.

## Main definitions

* `Shape.Framed`: The image of a stream covers its windows.
* `Shape.bounds`: The steps and the largest positions of its scan.
* `Scan.thresholds`: From where on its counters return.

## Theorems

* `Shape.validate_ok`: What is checked of a window.
* `Shape.framed_of_validate`: Checked streams are framed.
* `Shape.Framed.transfers_eq`: The windows of a frame, if they are not too many to be counted.
* `Shape.Framed.step_returns`: A move of the counters stays in words.
* `Shape.Framed.counters_ok`, `Shape.Framed.counters_returns`: The counters of an adapter are
  built for the scan.
-/

namespace StencilRtl

namespace Shape

/-- A checked window has bits and no empty extent. If it is one of a stream, it lies inside of its
    image. -/
theorem validate_ok {s : Shape} (h : s.validate = .ok ()) :
    0 < s.elem.bits ∧ (∀ extent ∈ s.extents, 0 < extent) ∧
      (s.isStream = true → s.storeExtents.length = s.extents.length ∧
        ∀ d ∈ s.storeExtents.zip s.extents, d.2 ≤ d.1) := by
  unfold validate at h
  split at h
  · exact absurd h (by simp [malformed])
  next hbits =>
  split at h
  · exact absurd h (by simp [malformed])
  next hzero =>
  refine ⟨Nat.pos_of_ne_zero hbits, fun extent hextent => ?_, fun hstream => ?_⟩
  · exact Nat.pos_of_ne_zero fun heq => hzero (heq ▸ hextent)
  rw [if_pos hstream] at h
  split at h
  · exact absurd h (by simp [malformed])
  next hlength =>
  split at h
  · exact absurd h (by simp [malformed])
  next hcovered =>
  refine ⟨not_not.mp hlength, fun d hd => ?_⟩
  simpa using List.find?_eq_none.mp hcovered d hd

/-- The image of a stream covers its windows, and its extents are words. -/
structure Framed (s : Shape) : Prop where
  extent_pos : ∀ extent ∈ s.extents, 0 < extent
  length_eq : s.storeExtents.length = s.extents.length
  covers : ∀ d ∈ s.storeExtents.zip s.extents, d.2 ≤ d.1
  words : ∀ store ∈ s.storeExtents, store < Word.limit

/-- Checked streams are framed. -/
theorem framed_of_validate {s : Shape} (hstream : s.isStream = true) (h : s.validate = .ok ())
    (hwords : ∀ store ∈ s.storeExtents, store < Word.limit) : s.Framed := by
  rcases validate_ok h with ⟨_, hextents, hframe⟩
  rcases hframe hstream with ⟨hlength, hcovers⟩
  exact ⟨hextents, hlength, hcovers, hwords⟩

/-- The steps and the largest positions of the scan of a stream. -/
def bounds (s : Shape) : List Scan.Bound :=
  (s.storeExtents.zip s.extents).map fun d => (d.2, d.1 - d.2)

/-- The scan of a stream that has one walks its bounds. -/
theorem scan_ok {s : Shape} (hlength : s.storeExtents.length = s.extents.length) {scan : Scan}
    (h : Scan.ofShape s = .ok scan) : scan.steps = s.bounds.map Prod.fst
      ∧ scan.maxes = s.bounds.map Prod.snd ∧ scan.widths = s.storeExtents.map bitsNeededFor := by
  rcases Fallible.bind_ok.mp h with ⟨maxes, hmaxes, hscan⟩
  have hmaxes := Fallible.mapM_eq_map (g := fun d : Nat × Nat => d.1 - d.2)
    (fun _ _ _ hd => (Word.sub_eq_ok.mp hd).2.symm) hmaxes
  rw [← Except.ok.inj hscan]
  refine ⟨?_, ?_, rfl⟩
  · rw [bounds, List.map_map]
    exact (List.map_snd_zip (Nat.le_of_eq hlength.symm)).symm
  · rw [bounds, List.map_map]
    exact hmaxes

end Shape

namespace Scan

/-- The least positions from which counters with given bounds return. -/
def thresholds (bounds : List Bound) : List Nat := bounds.map fun b => b.2 + 1 - b.1

/-- The number of windows of a scan is the product of the stops of its counters, unless it
    leaves the word. -/
theorem foldlM_stops {bounds : List Bound} (hbounds : ∀ b ∈ bounds, 0 < b.1 ∧
      b.2 / b.1 + 1 < Word.limit) {start : Nat} (hstart : start < Word.limit) :
    bounds.foldlM (fun count b => do Word.mul count (← Word.add (← Word.div b.2 b.1) 1)) start
      = Word.fit (start * visits bounds) := by
  -- Induction on the counters. No factor is zero, so a product that has left the word never
  -- comes back to it.
  induction bounds generalizing start with
  | nil =>
      rw [visits_nil, Nat.mul_one, Word.fit, if_pos hstart]
      rfl
  | cons b rest ih =>
      rw [List.forall_mem_cons] at hbounds
      rcases hbounds with ⟨⟨hpos, hfits⟩, hrest⟩
      have hdiv : Word.div b.2 b.1 = .ok (b.2 / b.1) := if_neg (Nat.ne_of_gt hpos)
      have hadd : Word.add (b.2 / b.1) 1 = .ok (b.2 / b.1 + 1) := if_pos hfits
      rw [List.foldlM_cons, hdiv, visits_cons, ← Nat.mul_assoc]
      simp only [bind, Except.bind, hadd]
      rw [Word.mul, Word.fit]
      by_cases hsmall : start * (b.2 / b.1 + 1) < Word.limit
      · rw [if_pos hsmall]
        exact ih hrest hsmall
      · have hgrow := Nat.le_mul_of_pos_right (start * (b.2 / b.1 + 1)) (visits_pos rest)
        rw [if_neg hsmall, Word.fit, if_neg (by omega)]
        rfl

end Scan

namespace Shape

namespace Framed

variable {s : Shape} (h : s.Framed)

include h

/-- One step past its largest position a counter is at an extent of the image. -/
theorem bound_ok : ∀ b ∈ s.bounds, 0 < b.1 ∧ b.2 + b.1 ∈ s.storeExtents := by
  intro b hb
  rcases List.mem_map.mp hb with ⟨d, hd, rfl⟩
  have hboth := List.of_mem_zip hd
  refine ⟨h.extent_pos d.2 hboth.2, ?_⟩
  rw [Nat.sub_add_cancel (h.covers d hd)]
  exact hboth.1

/-- The windows of a frame are counted, if they are not too many. -/
theorem transfers_eq {scan : Scan} (hscan : Scan.ofShape s = .ok scan) :
    scan.transfers = Word.fit (Scan.visits s.bounds) := by
  rcases scan_ok h.length_eq hscan with ⟨hsteps, hmaxes, _⟩
  have hbounds : ∀ b ∈ s.bounds, 0 < b.1 ∧ b.2 / b.1 + 1 < Word.limit := by
    intro b hb
    rcases h.bound_ok b hb with ⟨hpos, hstore⟩
    have hword := h.words _ hstore
    have hdiv : b.2 / b.1 ≤ b.2 := Nat.div_le_self ..
    refine ⟨hpos, ?_⟩
    omega
  rw [Scan.transfers, hsteps, hmaxes, List.zip_map', List.foldlM_map]
  exact (Scan.foldlM_stops hbounds (by decide)).trans (by rw [Nat.one_mul])

theorem step_pos : ∀ b ∈ s.bounds, 0 < b.1 := fun b hb => (h.bound_ok b hb).1

/-- A move of the counters from any of the positions stays in words. -/
theorem step_returns {k : Nat} (hk : k < Scan.visits s.bounds) :
    ∃ answer, stepCounters s.bounds (Scan.position s.bounds k) = .ok answer := by
  refine (Scan.stepCounters_returns_iff h.step_pos).mpr (fun b hb => ?_) k hk
  have hword := h.words _ (h.bound_ok b hb).2
  have hlast : b.2 / b.1 * b.1 ≤ b.2 := Nat.div_mul_le_self ..
  omega

/-- A move goes to the next window, and from the last one of a frame to the first. -/
theorem step_eq {k : Nat} (hk : k < Scan.visits s.bounds) :
    stepCounters s.bounds (Scan.position s.bounds k)
      = .ok (decide (k + 1 = Scan.visits s.bounds),
          Scan.position s.bounds ((k + 1) % Scan.visits s.bounds)) := by
  rcases h.step_returns hk with ⟨answer, hanswer⟩
  rw [hanswer, Scan.stepCounters_of_ok h.step_pos hk hanswer]

/-- A stream has a scan. -/
theorem scan_returns : ∃ scan, Scan.ofShape s = .ok scan := by
  rcases Fallible.mapM_returns (f := fun d : Nat × Nat => Word.sub d.1 d.2)
    (fun d hd => ⟨_, if_pos (h.covers d hd)⟩) with ⟨maxes, hmaxes⟩
  exact ⟨_, Fallible.bind_ok.mpr ⟨maxes, hmaxes, rfl⟩⟩

/-- The positions the counters return from. -/
theorem lastFrom_eq {scan : Scan} (hscan : Scan.ofShape s = .ok scan) :
    scan.lastFrom = .ok (Scan.thresholds s.bounds) := by
  rcases scan_ok h.length_eq hscan with ⟨hsteps, hmaxes, _⟩
  rw [Scan.lastFrom, hsteps, hmaxes, List.zip_map', List.mapM_map]
  refine Fallible.mapM_of_ok fun b hb => ?_
  rcases h.bound_ok b hb with ⟨hpos, hstore⟩
  have hword := h.words _ hstore
  exact Fallible.bind_ok.mpr ⟨b.2 + 1, if_pos (by omega), rfl⟩

/-- The register of a counter holds its largest position. -/
theorem lt_two_pow : ∀ d ∈ s.storeExtents.zip s.extents, d.1 - d.2 < 2 ^ bitsNeededFor d.1 := by
  intro d hd
  have hpos := h.extent_pos _ (List.of_mem_zip hd).2
  have hcovers := h.covers d hd
  have hwide := le_two_pow_bitsNeededFor d.1
  omega

/-- The counters can be made, if the extents of the windows have a width. -/
theorem counters_returns {scan : Scan} (hscan : Scan.ofShape s = .ok scan)
    (hextents : ∀ extent ∈ s.extents, extent + 1 < Word.limit) :
    ∃ counters, Adapter.counters scan = .ok counters ∧ ∀ c ∈ counters, 0 < c.width := by
  rcases scan_ok h.length_eq hscan with ⟨hsteps, hmaxes, hwidths⟩
  -- A step of the scan is an extent of the window, so it has a width.
  have hmade : ∃ counters, ScanCounter.ofDimensions 0
      (scan.widths.zip (scan.steps.zip (Scan.thresholds s.bounds))) = .ok counters := by
    refine ScanCounter.ofDimensions_returns fun dim hdim => hextents _ ?_
    have hstep := (List.of_mem_zip (List.of_mem_zip hdim).2).1
    rw [hsteps, bounds, List.map_map] at hstep
    rcases List.mem_map.mp hstep with ⟨d, hd, heq⟩
    exact heq ▸ (List.of_mem_zip hd).2
  rcases hmade with ⟨counters, hcounters⟩
  refine ⟨counters, Fallible.bind_ok.mpr ⟨_, h.lastFrom_eq hscan, hcounters⟩, fun c hc => ?_⟩
  rcases exists_of_forall₂ (ScanCounter.counts_of_ofDimensions hcounters).2 hc with
    ⟨dim, hdim, hwidth, _⟩
  have hmem := (List.of_mem_zip hdim).1
  rw [hwidths] at hmem
  rcases List.mem_map.mp hmem with ⟨store, _, heq⟩
  rw [hwidth, ← heq]
  exact bitsNeededFor_pos store

/-- The counters of an adapter are built for the scan of its windows. -/
theorem counters_ok {scan : Scan} (hscan : Scan.ofShape s = .ok scan)
    {counters : List ScanCounter} (hcounters : Adapter.counters scan = .ok counters) :
    List.Forall₂ ScanCounter.Counts counters s.bounds := by
  rcases scan_ok h.length_eq hscan with ⟨hsteps, hmaxes, hwidths⟩
  rcases Fallible.bind_ok.mp hcounters with ⟨lastFrom, hlast, hmade⟩
  have hlastFrom : lastFrom = s.bounds.map fun b => b.2 + 1 - b.1 :=
    Except.ok.inj (hlast.symm.trans (h.lastFrom_eq hscan))
  -- Thresholds, steps and widths are all read off the same pairs of extents.
  have hstores : s.storeExtents = (s.storeExtents.zip s.extents).map Prod.fst :=
    (List.map_fst_zip (Nat.le_of_eq h.length_eq)).symm
  rw [hsteps, hwidths, hlastFrom, bounds, List.map_map, List.map_map, hstores, List.map_map,
    ← hstores, List.zip_map', List.zip_map'] at hmade
  have hcounts := (ScanCounter.counts_of_ofDimensions hmade).2
  rw [List.forall₂_map_right_iff] at hcounts
  rw [bounds, List.forall₂_map_right_iff]
  have hroom : ∀ d ∈ s.storeExtents.zip s.extents, 0 < d.2 ∧ d.1 - d.2 < 2 ^ bitsNeededFor d.1 :=
    fun d hd => ⟨h.extent_pos d.2 (List.of_mem_zip hd).2, h.lt_two_pow d hd⟩
  refine List.Forall₂.flip (((List.forall₂_and_left _ _).mpr ⟨hroom, hcounts.flip⟩).imp ?_)
  rintro d c ⟨⟨hpos, hfits⟩, -, hbuilt⟩
  exact hbuilt (d.2, d.1 - d.2) hpos rfl hfits rfl

end Framed

end Shape

end StencilRtl
