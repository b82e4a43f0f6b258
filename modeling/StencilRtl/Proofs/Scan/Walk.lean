import StencilRtl.Proofs.Scan.Frames

/-!
# The Walk over an Image

Where the counters of a stream go, and what each move of theirs does.

The walk is told three times. By its moves, which go through the counters one after the other
and stop at the first one that need not return. By thresholds, which the hardware compares its
registers with: a counter is due to return once it has come to the position `lastFrom` tells for
it, and a counter moves if all before it are due. And by a product that counts the windows. All
of them speak of an image that the windows need not divide. What a window does not fill at the
far end of a dimension is skipped.

The largest position of a counter is the extent of the image less that of the window, so a step
past it is at most the extent of the image. This keeps the sums of a move in words, from whatever
positions it is made, and the registers, whose width is that of the extent, hold every position.

## Main definitions

* `Scan.after`: What a move of the counters returns.
* `Scan.Walks`: A list of positions is the walk over an image.
* `Scan.Moves`: What a move does, told by thresholds.

## Theorems

* `Shape.Framed.walks_positions`: The counters visit every window that fits, each of them once.
* `Scan.moves_of_le`: A move does to each counter what its threshold tells.
* `Shape.Framed.scan_walks`: The moves, the thresholds and the number of windows agree.
-/

namespace StencilRtl

namespace Scan

/-- What the `n`-th move of the counters from zero returns: whether all of them have returned,
    and where they are then. -/
def after (scan : Scan) : Nat → Fallible (Bool × List Nat)
  | 0 => .ok (false, scan.maxes.map fun _ => 0)
  | n + 1 => do scan.step (← scan.after n).2

/-- A list of positions is the walk over the image of a stream: the tuples of multiples of the
    window's extents from which a window still fits, the first coordinate fastest. The moves of
    the counters go through it, and the last one, of which there are as many as windows, is the
    only one that reports that all counters are at zero again. -/
structure Walks (scan : Scan) (s : Shape) (route : List (List Nat)) : Prop where
  mem_iff : ∀ counters, counters ∈ route
    ↔ List.Forall₂ (fun (d : Nat × Nat) x => d.2 ∣ x ∧ x + d.2 ≤ d.1)
        (s.storeExtents.zip s.extents) counters
  ordered : route.Pairwise fun c c' => c.reverse < c'.reverse
  length_eq : route.length = ((s.storeExtents.zip s.extents).map fun d => d.1 / d.2).prod
  passes : ∀ k, (h : k < route.length) → scan.after k = .ok (false, route[k])
  returns : scan.after route.length = .ok (true, s.extents.map fun _ => 0)

/-- What a move does to counters with given steps, told by the positions they return from. A
    counter stays unless all before it are due to return. Then it returns if it is due itself and
    makes its step if it is not. -/
structure Moves (steps lastFrom counters next : List Nat) (wrapped : Bool) : Prop where
  length_eq : next.length = counters.length
  next_eq : ∀ d < counters.length, next[d]! =
    if ∀ j < d, lastFrom[j]! ≤ counters[j]! then
      if lastFrom[d]! ≤ counters[d]! then 0 else counters[d]! + steps[d]!
    else counters[d]!
  wrapped_iff : wrapped = true ↔ ∀ j < counters.length, lastFrom[j]! ≤ counters[j]!

/-- All counters up to some one are due if the first one is and all behind it are. -/
theorem forall_due_succ {threshold counter n : Nat} {thresholds counters : List Nat} :
    (∀ j < n + 1, (threshold :: thresholds)[j]! ≤ (counter :: counters)[j]!)
      ↔ threshold ≤ counter ∧ ∀ j < n, thresholds[j]! ≤ counters[j]! :=
  Nat.forall_lt_succ_left

/-- If the first counter is not due it makes its step, and the others stay. -/
theorem Moves.first {b : Bound} {bounds : List Bound} {counter : Nat} {counters : List Nat}
    (hfits : counter + b.1 ≤ b.2) :
    Moves ((b :: bounds).map Prod.fst) (thresholds (b :: bounds)) (counter :: counters)
      ((counter + b.1) :: counters) false := by
  have hnotDue : ¬b.2 + 1 - b.1 ≤ counter := by omega
  refine ⟨rfl, fun d hd => ?_, iff_of_false Bool.false_ne_true fun hdue => ?_⟩
  · cases d with
    | zero =>
        rw [if_pos fun j hj => absurd hj (Nat.not_lt_zero j)]
        exact (if_neg hnotDue).symm
    | succ d => exact (if_neg fun hdue => hnotDue (forall_due_succ.mp hdue).1).symm
  · exact hnotDue (forall_due_succ.mp hdue).1

/-- If the first counter is due it returns, and the others move. -/
theorem Moves.cons {b : Bound} {bounds : List Bound} {counter : Nat} {counters next : List Nat}
    {wrapped : Bool} (hpasses : b.2 < counter + b.1)
    (h : Moves (bounds.map Prod.fst) (thresholds bounds) counters next wrapped) :
    Moves ((b :: bounds).map Prod.fst) (thresholds (b :: bounds)) (counter :: counters)
      (0 :: next) wrapped := by
  have hdue : b.2 + 1 - b.1 ≤ counter := by omega
  have hall (n : Nat) : (∀ j < n + 1, (thresholds (b :: bounds))[j]! ≤ (counter :: counters)[j]!)
      ↔ ∀ j < n, (thresholds bounds)[j]! ≤ counters[j]! :=
    forall_due_succ.trans (and_iff_right hdue)
  refine ⟨congrArg Nat.succ h.length_eq, fun d hd => ?_, h.wrapped_iff.trans (hall _).symm⟩
  cases d with
  | zero =>
      rw [if_pos fun j hj => absurd hj (Nat.not_lt_zero j)]
      exact (if_pos hdue).symm
  | succ d =>
      rw [if_congr (hall d) rfl rfl]
      exact h.next_eq d (Nat.succ_lt_succ_iff.mp hd)

/-- A move from positions that are not past the largest ones does to each counter what its
    threshold tells, and does not pass the largest ones either. -/
theorem moves_of_le {bounds : List Bound} (hwords : ∀ b ∈ bounds, b.2 + b.1 < Word.limit)
    {counters : List Nat} (h : List.Forall₂ (fun c (b : Bound) => c ≤ b.2) counters bounds) :
    ∃ wrapped next, stepCounters bounds counters = .ok (wrapped, next)
      ∧ Moves (bounds.map Prod.fst) (thresholds bounds) counters next wrapped
      ∧ List.Forall₂ (fun c (b : Bound) => c ≤ b.2) next bounds := by
  -- The induction goes from the slowest counter to the fastest one. Whatever the slower ones would
  -- do, they only do it if the counter in front of them returns.
  induction h with
  | nil => exact ⟨true, [], rfl, ⟨rfl, nofun, by simp⟩, .nil⟩
  | @cons counter b counters bounds hle hrest ih =>
      rcases List.forall_mem_cons.mp hwords with ⟨hword, hwords⟩
      have hnext : Word.add counter b.1 = .ok (counter + b.1) := if_pos (by omega)
      rcases ih hwords with ⟨wrapped, next, hstep, hmoves, hbelow⟩
      simp only [stepCounters, hnext, hstep, bind, Except.bind]
      by_cases hpasses : b.2 < counter + b.1
      · rw [if_pos hpasses]
        exact ⟨wrapped, 0 :: next, rfl, hmoves.cons hpasses, .cons (Nat.zero_le _) hbelow⟩
      · rw [if_neg hpasses]
        have hfits := Nat.le_of_not_lt hpasses
        exact ⟨false, _, rfl, .first hfits, .cons hfits hrest⟩

end Scan

namespace Shape

namespace Framed

variable {s : Shape} (h : s.Framed)

include h

/-- The steps of the counters are the extents of the window. -/
theorem map_fst_bounds : s.bounds.map Prod.fst = s.extents := by
  rw [bounds, List.map_map]
  exact List.map_snd_zip (Nat.le_of_eq h.length_eq.symm)

/-- The windows of a scan are counted dimension by dimension. -/
theorem visits_eq : Scan.visits s.bounds
    = ((s.storeExtents.zip s.extents).map fun d => d.1 / d.2).prod := by
  rw [Scan.visits, bounds, List.map_map]
  refine congrArg List.prod (List.map_congr_left fun d hd => ?_)
  exact (Nat.div_eq_sub_div (h.extent_pos _ (List.of_mem_zip hd).2) (h.covers d hd)).symm

/-- The counters of a scan move as its bounds tell. -/
theorem step_eq_stepCounters {scan : Scan} (hscan : Scan.ofShape s = .ok scan)
    (counters : List Nat) : scan.step counters = stepCounters s.bounds counters := by
  rcases scan_ok h.length_eq hscan with ⟨hsteps, hmaxes, _⟩
  rw [Scan.step, hsteps, hmaxes, List.zip_map', List.map_id'']
  exact fun _ => rfl

/-- Before the last one the moves go to one window after the other. -/
theorem after_eq {scan : Scan} (hscan : Scan.ofShape s = .ok scan) {k : Nat}
    (hk : k < Scan.visits s.bounds) :
    scan.after k = .ok (false, Scan.position s.bounds k) := by
  induction k with
  | zero =>
      rw [Scan.after, Scan.position_zero, (scan_ok h.length_eq hscan).2.1, List.map_map]
      rfl
  | succ k ih =>
      rw [Scan.after, ih (by omega)]
      simp only [bind, Except.bind]
      rw [h.step_eq_stepCounters hscan, h.step_eq (by omega), Nat.mod_eq_of_lt hk,
        decide_eq_false (Nat.ne_of_lt hk)]

/-- The counters visit every window that fits, each of them once, and return. -/
theorem walks_positions {scan : Scan} (hscan : Scan.ofShape s = .ok scan) :
    scan.Walks s (Scan.positions s.bounds) := by
  have hlength := Scan.length_positions s.bounds
  have hfits : ∀ d ∈ s.storeExtents.zip s.extents, ∀ x, x ≤ d.1 - d.2 ↔ x + d.2 ≤ d.1 :=
    fun d hd _ => Nat.le_sub_iff_add_le (h.covers d hd)
  refine ⟨fun counters => ?_, Scan.pairwise_positions h.step_pos, hlength.trans h.visits_eq,
    fun k hk => ?_, ?_⟩
  · rw [Scan.mem_positions h.step_pos, bounds, List.forall₂_map_left_iff]
    refine ⟨fun hall => ?_, fun hall => ?_⟩
    · exact ((List.forall₂_and_left _ _).mpr ⟨hfits, hall⟩).imp fun _ x hd =>
        ⟨hd.2.1, (hd.1 x).mp hd.2.2⟩
    · exact ((List.forall₂_and_left _ _).mpr ⟨hfits, hall⟩).imp fun _ x hd =>
        ⟨hd.2.1, (hd.1 x).mpr hd.2.2⟩
  · rw [Scan.getElem_positions]
    exact h.after_eq hscan (hlength ▸ hk)
  · -- The move after the one to the last window is the first one that goes all around.
    rcases Nat.exists_eq_succ_of_ne_zero (Nat.ne_of_gt (Scan.visits_pos s.bounds)) with ⟨m, hm⟩
    have hlast : m < Scan.visits s.bounds := by omega
    rw [hlength, hm, Scan.after, h.after_eq hscan hlast]
    simp only [bind, Except.bind]
    rw [h.step_eq_stepCounters hscan, h.step_eq hlast, decide_eq_true hm.symm,
      ← Nat.succ_eq_add_one, ← hm, Nat.mod_self, Scan.position_zero, ← h.map_fst_bounds,
      List.map_map]
    rfl

/-- What is not past the largest positions fits the registers of the counters. -/
theorem fits_of_le {scan : Scan} (hscan : Scan.ofShape s = .ok scan) {values : List Nat}
    (hle : List.Forall₂ (fun x (b : Scan.Bound) => x ≤ b.2) values s.bounds) :
    List.Forall₂ (fun x width => x < 2 ^ width) values scan.widths := by
  have hstores : (s.storeExtents.zip s.extents).map Prod.fst = s.storeExtents :=
    List.map_fst_zip (Nat.le_of_eq h.length_eq)
  rw [(scan_ok h.length_eq hscan).2.2, ← hstores, List.map_map, List.forall₂_map_right_iff]
  rw [bounds, List.forall₂_map_right_iff] at hle
  refine (((List.forall₂_and_left _ _).mpr ⟨h.lt_two_pow, hle.flip⟩).imp ?_).flip
  exact fun _ _ hd => Nat.lt_of_le_of_lt hd.2 hd.1

/-- The counters of a framed stream visit every window that fits the image, each of them once and
dimension 0 fastest, and come back to zero with the move whose number is that of the windows. That
number is the product of the windows in each dimension, and it is computed unless it leaves the
word. A move from any positions that are not past the largest ones returns the counters whose
thresholds tell it. All positions and thresholds fit the registers. -/
theorem scan_walks : ∃ scan lastFrom,
    Scan.ofShape s = .ok scan ∧ scan.lastFrom = .ok lastFrom
      ∧ scan.transfers
        = Word.fit ((s.storeExtents.zip s.extents).map fun d => d.1 / d.2).prod
      ∧ (∃ route, scan.Walks s route)
      ∧ List.Forall₂ (fun x width => x < 2 ^ width) lastFrom scan.widths
      ∧ ∀ counters, List.Forall₂ (fun x max => x ≤ max) counters scan.maxes →
        List.Forall₂ (fun x width => x < 2 ^ width) counters scan.widths
          ∧ ∃ wrapped next, scan.step counters = .ok (wrapped, next)
            ∧ Scan.Moves s.extents lastFrom counters next wrapped
            ∧ List.Forall₂ (fun x width => x < 2 ^ width) next scan.widths := by
  rcases h.scan_returns with ⟨scan, hscan⟩
  refine ⟨scan, _, hscan, h.lastFrom_eq hscan, h.visits_eq ▸ h.transfers_eq hscan,
    ⟨_, h.walks_positions hscan⟩, h.fits_of_le hscan ?_, fun counters hle => ?_⟩
  · -- A step is at least one, so a threshold is no larger than the largest position.
    refine List.forall₂_map_left_iff.mpr (List.forall₂_same.mpr fun b hb => ?_)
    have hpos := h.step_pos b hb
    omega
  · rw [(scan_ok h.length_eq hscan).2.1, List.forall₂_map_right_iff] at hle
    have hwords : ∀ b ∈ s.bounds, b.2 + b.1 < Word.limit :=
      fun b hb => h.words _ (h.bound_ok b hb).2
    rcases Scan.moves_of_le hwords hle with ⟨wrapped, next, hstep, hmoves, hbelow⟩
    rw [h.map_fst_bounds] at hmoves
    exact ⟨h.fits_of_le hscan hle, wrapped, next, (h.step_eq_stepCounters hscan _).trans hstep,
      hmoves, h.fits_of_le hscan hbelow⟩

end Framed

/-- Windows of three columns over rows of eight, of which the last two columns are skipped. -/
theorem scan_walks_skipped :
    let s := (Shape.stream (.uint 8) [3, 1]).withStoreExtents [8, 2]
    s.Framed ∧ ∃ scan route, Scan.ofShape s = .ok scan ∧ scan.transfers = .ok 4
      ∧ scan.Walks s route ∧ route.length = 4 := by
  intro s
  have h : s.Framed := framed_of_validate rfl rfl (by decide)
  rcases h.scan_walks with ⟨scan, lastFrom, hscan, _, htransfers, ⟨route, hroute⟩, _⟩
  exact ⟨h, scan, route, hscan, htransfers, hroute, hroute.length_eq⟩

end Shape

end StencilRtl
