import StencilRtl.Geometry.Scan
import StencilRtl.Proofs.Fallible
import StencilRtl.Proofs.Tuples

/-!
# Positions of a Scan

Where the counters of a scan go, and in which order.

A counter with a step and a largest position visits the multiples of the step up to
that position; the step need not divide it. All counters together visit the tuples of
such multiples, the first counter fastest, and `positions` lists them without any
counting. Counting is needed for what a move of the counters does, so `position` gives
the tuple with a number by its mixed digits, the first counter lowest.

A move adds before it compares, and the sum has to be a word even where the counter is
about to return to zero. So what a move does is said in two halves. Where it returns it
goes to the next tuple, and reports the end of the scan at the last one. That it returns
at every tuple is another matter: it does just if no counter leaves the word one step
past its last multiple. The second half needs the first to be of use, for the counters
are at a tuple only if all moves before have returned.

## Main definitions

* `Scan.Bound`: The step and the largest position of a counter.
* `Scan.positions`: The tuples a scan visits, in order.
* `Scan.visits`: The number of tuples.
* `Scan.position`: The tuple with a given number.

## Theorems

* `mem_positions`: Which tuples a scan visits.
* `pairwise_positions`: In which order it visits them.
* `positions_eq_map_position`: The tuples in order are those numbered from zero.
* `stepCounters_of_ok`: A move that returns goes to the next tuple.
* `stepCounters_returns_iff`: When moves from all tuples return.
-/

namespace StencilRtl

namespace Scan

/-- The step and the largest position of a counter. -/
abbrev Bound := Nat × Nat

/-- The positions a counter visits: the multiples of its step up to the largest
    position. -/
def stops (bound : Bound) : List Nat :=
  (List.range (bound.2 / bound.1 + 1)).map (· * bound.1)

/-- The tuples a scan visits, the first counter fastest. -/
def positions (bounds : List Bound) : List (List Nat) := rowMajor (bounds.map stops)

/-- The number of tuples a scan visits. -/
def visits (bounds : List Bound) : Nat := (bounds.map fun b => b.2 / b.1 + 1).prod

/-- The tuple with number `k`. -/
def position : List Bound → Nat → List Nat
  | [], _ => []
  | b :: rest, k => k % (b.2 / b.1 + 1) * b.1 :: position rest (k / (b.2 / b.1 + 1))

@[simp] theorem visits_nil : visits [] = 1 := rfl

@[simp] theorem visits_cons (b : Bound) (rest : List Bound) :
    visits (b :: rest) = (b.2 / b.1 + 1) * visits rest := by
  rw [visits, visits, List.map_cons, List.prod_cons]

theorem visits_pos (bounds : List Bound) : 0 < visits bounds := by
  induction bounds with
  | nil => exact Nat.one_pos
  | cons b rest ih =>
      rw [visits_cons]
      exact Nat.mul_pos (Nat.succ_pos _) ih

theorem length_positions (bounds : List Bound) : (positions bounds).length = visits bounds := by
  rw [positions, length_rowMajor, visits, List.map_map]
  refine congrArg List.prod (List.map_congr_left fun b _ => ?_)
  rw [Function.comp_apply, stops, List.length_map, List.length_range]

theorem mem_stops {b : Bound} (hstep : 0 < b.1) {x : Nat} :
    x ∈ stops b ↔ b.1 ∣ x ∧ x ≤ b.2 := by
  rw [stops, List.mem_map]
  refine ⟨?_, ?_⟩
  · rintro ⟨k, hk, rfl⟩
    have hk : k ≤ b.2 / b.1 := Nat.lt_succ_iff.mp (List.mem_range.mp hk)
    exact ⟨Nat.dvd_mul_left .., (Nat.le_div_iff_mul_le hstep).mp hk⟩
  · rintro ⟨⟨k, rfl⟩, hle⟩
    rw [Nat.mul_comm] at hle
    refine ⟨k, List.mem_range.mpr (Nat.lt_succ_iff.mpr ?_), Nat.mul_comm ..⟩
    exact (Nat.le_div_iff_mul_le hstep).mpr hle

/-- A scan visits the tuples of multiples that do not pass the largest positions. -/
theorem mem_positions {bounds : List Bound} (hstep : ∀ b ∈ bounds, 0 < b.1) {tuple : List Nat} :
    tuple ∈ positions bounds
      ↔ List.Forall₂ (fun (b : Bound) x => b.1 ∣ x ∧ x ≤ b.2) bounds tuple := by
  rw [positions, mem_rowMajor, List.forall₂_map_right_iff]
  induction bounds generalizing tuple with
  | nil => rw [List.forall₂_nil_right_iff, List.forall₂_nil_left_iff]
  | cons b rest ih =>
      cases tuple with
      | nil => exact iff_of_false (fun h => nomatch h) (fun h => nomatch h)
      | cons x tail =>
          rw [List.forall₂_cons, List.forall₂_cons, mem_stops (hstep b (List.mem_cons_self ..)),
            ih fun c hc => hstep c (List.mem_cons_of_mem _ hc)]

/-- A scan visits its tuples in the order of their last coordinates, and of those before
    where the last ones agree. -/
theorem pairwise_positions {bounds : List Bound} (hstep : ∀ b ∈ bounds, 0 < b.1) :
    (positions bounds).Pairwise fun p q => p.reverse < q.reverse := by
  refine pairwise_rowMajor fun xs hxs => ?_
  rcases List.mem_map.mp hxs with ⟨b, hb, rfl⟩
  refine List.pairwise_map.mpr (List.pairwise_lt_range.imp fun hlt => ?_)
  exact Nat.mul_lt_mul_of_pos_right hlt (hstep b hb)

/-- The tuples in order are those numbered from zero. -/
theorem positions_eq_map_position (bounds : List Bound) :
    positions bounds = (List.range (visits bounds)).map (position bounds) := by
  induction bounds with
  | nil => rfl
  | cons b rest ih =>
      have ih : rowMajor (rest.map stops) = (List.range (visits rest)).map (position rest) := ih
      rw [visits_cons, ← flatMap_range_map, positions, List.map_cons, rowMajor_cons, ih,
        List.flatMap_map]
      refine List.flatMap_congr fun y _ => ?_
      rw [stops, List.map_map]
      refine List.map_congr_left fun x hx => ?_
      have hpair := pair_mod_div (List.mem_range.mp hx) y
      simp only [Function.comp_apply, position, hpair.1, hpair.2]

theorem getElem_positions {bounds : List Bound} {k : Nat} (hk : k < (positions bounds).length) :
    (positions bounds)[k] = position bounds k := by
  simp only [positions_eq_map_position, List.getElem_map, List.getElem_range]

/-- The first tuple holds zeros. -/
theorem position_zero (bounds : List Bound) : position bounds 0 = bounds.map fun _ => 0 := by
  induction bounds with
  | nil => rfl
  | cons b rest ih =>
      simp only [position, Nat.zero_mod, Nat.zero_mul, Nat.zero_div, ih, List.map_cons]

/-- Whether a counter passes its largest position with the step after `q` of them. -/
theorem passes_iff {b : Bound} (hstep : 0 < b.1) {q : Nat} (hq : q < b.2 / b.1 + 1) :
    b.2 < q * b.1 + b.1 ↔ q = b.2 / b.1 := by
  have hdiv : b.1 * (b.2 / b.1) + b.2 % b.1 = b.2 := Nat.div_add_mod ..
  have hmod : b.2 % b.1 < b.1 := Nat.mod_lt _ hstep
  refine ⟨fun hlt => ?_, fun heq => ?_⟩
  · by_contra hne
    have hle : b.1 * (q + 1) ≤ b.1 * (b.2 / b.1) := Nat.mul_le_mul_left _ (by omega)
    rw [Nat.mul_succ, Nat.mul_comm b.1 q] at hle
    omega
  · rw [heq, Nat.mul_comm]
    omega

/-- The number of the next tuple, by the digits of the number of this one. -/
theorem succ_digits {m k : Nat} (hm : 0 < m) :
    if k % m = m - 1 then (k + 1) % m = 0 ∧ (k + 1) / m = k / m + 1
    else (k + 1) % m = k % m + 1 ∧ (k + 1) / m = k / m := by
  have hsplit : k = k % m + m * (k / m) := (Nat.mod_add_div k m).symm
  have hlt : k % m < m := Nat.mod_lt k hm
  split
  next hlast =>
    have hnext : k + 1 = 0 + m * (k / m + 1) := by rw [Nat.mul_succ]; omega
    rw [hnext]
    exact pair_mod_div hm _
  next hlast =>
    have hnext : k + 1 = k % m + 1 + m * (k / m) := by omega
    rw [hnext]
    exact pair_mod_div (by omega) _

/-- A move that returns goes to the next tuple, and from the last one to the first,
    which it reports. -/
theorem stepCounters_of_ok {bounds : List Bound} (hstep : ∀ b ∈ bounds, 0 < b.1) {k : Nat}
    (hk : k < visits bounds) {answer : Bool × List Nat}
    (h : stepCounters bounds (position bounds k) = .ok answer) :
    answer = (decide (k + 1 = visits bounds), position bounds ((k + 1) % visits bounds)) := by
  induction bounds generalizing k answer with
  | nil =>
      have hzero : k = 0 := by simpa only [visits_nil, Nat.lt_one_iff] using hk
      rw [hzero]
      exact (Except.ok.inj h).symm
  | cons b rest ih =>
      have hb : 0 < b.1 := hstep b (List.mem_cons_self ..)
      have hm : 0 < b.2 / b.1 + 1 := Nat.succ_pos _
      rw [visits_cons] at hk ⊢
      have hrest : k / (b.2 / b.1 + 1) < visits rest := Nat.div_lt_of_lt_mul hk
      have hdigits := succ_digits (k := k) hm
      have hpass := passes_iff hb (Nat.mod_lt k hm)
      rw [position, stepCounters, Fallible.bind_ok] at h
      rcases h with ⟨next, hnext, h⟩
      have hnext := (Word.add_eq_ok.mp hnext).2
      rw [← hnext] at h
      rw [Nat.add_sub_cancel] at hdigits
      by_cases hlast : k % (b.2 / b.1 + 1) = b.2 / b.1
      · -- The counter returns to zero, so the ones after it move.
        rw [if_pos (hpass.mpr hlast), Fallible.bind_ok] at h
        rw [if_pos hlast] at hdigits
        rcases h with ⟨⟨wrapped, tail⟩, htail, h⟩
        have hmoved := ih (fun c hc => hstep c (List.mem_cons_of_mem _ hc)) hrest htail
        rw [Prod.mk.injEq] at hmoved
        rw [← Except.ok.inj h, hmoved.1, hmoved.2]
        have hend : k / (b.2 / b.1 + 1) + 1 = visits rest
            ↔ k + 1 = (b.2 / b.1 + 1) * visits rest := by
          rw [← hdigits.2]
          exact Nat.div_eq_iff_eq_mul_right hm (Nat.dvd_of_mod_eq_zero hdigits.1)
        simp only [hend, position, Nat.mod_mul_right_mod, Nat.mod_mul_right_div_self,
          hdigits.1, hdigits.2, Nat.zero_mul]
      · -- The counter goes on, and the ones after it stay.
        rw [if_neg (fun hlt => hlast (hpass.mp hlt))] at h
        rw [if_neg hlast] at hdigits
        rw [← Except.ok.inj h]
        have hne : ¬k + 1 = (b.2 / b.1 + 1) * visits rest := by
          intro heq
          rw [heq, Nat.mul_mod_right] at hdigits
          omega
        have hlt : k + 1 < (b.2 / b.1 + 1) * visits rest := by omega
        simp only [hne, decide_false, Nat.mod_eq_of_lt hlt, position, hdigits.1, hdigits.2]
        rw [Nat.succ_mul]

/-- Moves from all tuples return just if no counter leaves the word one step past its
    last multiple. -/
theorem stepCounters_returns_iff {bounds : List Bound} (hstep : ∀ b ∈ bounds, 0 < b.1) :
    (∀ k < visits bounds, ∃ answer, stepCounters bounds (position bounds k) = .ok answer)
      ↔ ∀ b ∈ bounds, b.2 / b.1 * b.1 + b.1 < Word.limit := by
  induction bounds with
  | nil => exact ⟨fun _ b hb => absurd hb List.not_mem_nil, fun _ k _ => ⟨_, rfl⟩⟩
  | cons b rest ih =>
      have hb : 0 < b.1 := hstep b (List.mem_cons_self ..)
      have ih := ih fun c hc => hstep c (List.mem_cons_of_mem _ hc)
      refine ⟨fun h => ?_, fun h k hk => ?_⟩
      · -- The last position of this counter is reached with any tuple of the others.
        have hlast : ∀ j < visits rest, ∃ answer, stepCounters (b :: rest)
            (b.2 / b.1 * b.1 :: position rest j) = .ok answer := by
          intro j hj
          have hpair := pair_mod_div (Nat.lt_succ_self (b.2 / b.1)) j
          rcases h (b.2 / b.1 + (b.2 / b.1 + 1) * j) (by
            rw [visits_cons]; exact pair_lt (Nat.lt_succ_self _) hj) with ⟨answer, hanswer⟩
          rw [position, hpair.1, hpair.2] at hanswer
          exact ⟨answer, hanswer⟩
        have hmoves : b.2 / b.1 * b.1 + b.1 < Word.limit ∧ ∀ j < visits rest,
            ∃ answer, stepCounters rest (position rest j) = .ok answer := by
          have hinner : ∀ j < visits rest, b.2 / b.1 * b.1 + b.1 < Word.limit
              ∧ ∃ answer, stepCounters rest (position rest j) = .ok answer := by
            intro j hj
            rcases hlast j hj with ⟨answer, hanswer⟩
            rw [stepCounters, Fallible.bind_ok] at hanswer
            rcases hanswer with ⟨next, hnext, hanswer⟩
            rcases Word.add_eq_ok.mp hnext with ⟨hfits, hnext⟩
            rw [← hnext, if_pos ((passes_iff hb (Nat.lt_succ_self _)).mpr rfl),
              Fallible.bind_ok] at hanswer
            rcases hanswer with ⟨tail, htail, _⟩
            exact ⟨hfits, tail, htail⟩
          exact ⟨(hinner 0 (visits_pos rest)).1, fun j hj => (hinner j hj).2⟩
        intro c hc
        rcases List.mem_cons.mp hc with rfl | hc
        · exact hmoves.1
        · exact ih.mp hmoves.2 c hc
      · have hfits := h b (List.mem_cons_self ..)
        have hrest := ih.mpr fun c hc => h c (List.mem_cons_of_mem _ hc)
        rw [visits_cons] at hk
        rcases hrest _ (Nat.div_lt_of_lt_mul hk) with ⟨tail, htail⟩
        have hle : k % (b.2 / b.1 + 1) * b.1 ≤ b.2 / b.1 * b.1 :=
          Nat.mul_le_mul_right _ (Nat.lt_succ_iff.mp (Nat.mod_lt k (Nat.succ_pos _)))
        have hnext : Word.add (k % (b.2 / b.1 + 1) * b.1) b.1
            = .ok (k % (b.2 / b.1 + 1) * b.1 + b.1) := Word.add_eq_ok.mpr ⟨by omega, rfl⟩
        rw [position, stepCounters, hnext]
        simp only [bind, Except.bind, htail]
        split
        · exact ⟨_, rfl⟩
        · exact ⟨_, rfl⟩

end Scan

end StencilRtl
