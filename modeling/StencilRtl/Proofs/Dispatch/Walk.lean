import Mathlib.Algebra.BigOperators.Group.List.Basic
import Mathlib.Algebra.GroupWithZero.Nat
import StencilRtl.Geometry.Dispatch
import StencilRtl.Proofs.Scan.Positions

/-!
# The Walk of a Router

Which positions a router visits, and how many of them each consumer gets.

A walk begins with all counters at zero and moves them until a move reports that the
walk begins anew. What it should visit is told by the geometry alone: the tuples of
multiples of the steps from which a window still fits the image. `Walks` says that a
list of positions is those, in order, and that the moves of the counters go through it.

The moves are computed in words, and one of them may leave the word although the
position it would go to is not one of the walk. So a walk need not come to its end.
`StaysInWords` is what it takes, and it is not part of what is checked of a router: the
counters are compared with the image, the step added to them is not. The same holds for
the far end of a box, which is only computed where a counter has come past its near end.

A consumer gets the windows that lie in its box, and a window lies in a box if it does
in each dimension. So the windows of a consumer are counted dimension by dimension.

## Main definitions

* `DispatchPlan.Checked`: What is checked of a router.
* `DispatchPlan.StaysInWords`: No counter leaves the word before it returns.
* `DispatchPlan.after`: What a move of the counters returns.
* `DispatchPlan.Walks`: A list of positions is the walk of a router.
* `DispatchPlan.received`: How many windows of a walk a consumer gets.

## Theorems

* `after_of_ok`: Moves that return go through the positions in order.
* `walks_positions`: A walk that stays in words visits every position once.
* `received_positions`: The windows of a consumer are counted dimension by dimension.
* `walk_ends_iff`: When a walk ends, and what it has done then.
-/

namespace StencilRtl

namespace DispatchPlan

/-- What is checked of a router before it is built. -/
structure Checked (p : DispatchPlan) : Prop where
  steps_length : p.steps.length = p.sizes.length
  stores_length : p.storeExtents.length = p.sizes.length
  step_pos : ∀ d ∈ p.dimensions, 0 < d.2.1
  size_le : ∀ d ∈ p.dimensions, d.1 ≤ d.2.2
  offsets_length : ∀ box ∈ p.consumers, box.offsets.length = p.sizes.length
  extents_length : ∀ box ∈ p.consumers, box.extents.length = p.sizes.length

theorem checkDimensions_ok {d : Nat} {dims : List (Nat × Nat × Nat)}
    (h : checkDimensions d dims = .ok ()) : ∀ dim ∈ dims, 0 < dim.2.1 ∧ dim.1 ≤ dim.2.2 := by
  induction dims generalizing d with
  | nil => exact fun _ hmem => absurd hmem List.not_mem_nil
  | cons dim rest ih =>
      rcases dim with ⟨size, step, store⟩
      rw [checkDimensions] at h
      split at h
      · exact absurd h (by simp [unsupported])
      next hfits =>
        intro other hmem
        rcases List.mem_cons.mp hmem with rfl | hmem
        · exact ⟨Nat.pos_of_ne_zero fun hz => hfits (.inl hz),
            Nat.le_of_not_lt fun hlt => hfits (.inr hlt)⟩
        · exact ih h other hmem

theorem checkBoxes_ok {rank : Nat} {boxes : List DispatchBox} (h : checkBoxes rank boxes = .ok ()) :
    ∀ box ∈ boxes, box.offsets.length = rank ∧ box.extents.length = rank := by
  induction boxes with
  | nil => exact fun _ hmem => absurd hmem List.not_mem_nil
  | cons box rest ih =>
      rw [checkBoxes] at h
      split at h
      · exact absurd h (by simp [malformed])
      next hranks =>
        intro other hmem
        rcases List.mem_cons.mp hmem with rfl | hmem
        · exact ⟨by omega, by omega⟩
        · exact ih h other hmem

theorem checked_of_check {p : DispatchPlan} (h : p.check = .ok ()) : p.Checked := by
  simp only [check] at h
  split at h
  · exact absurd h (by simp [malformed])
  next hranks =>
    rcases Fallible.bind_ok.mp h with ⟨_, hdims, hboxes⟩
    exact {
      steps_length := by omega
      stores_length := by omega
      step_pos := fun d hd => (checkDimensions_ok hdims d hd).1
      size_le := fun d hd => (checkDimensions_ok hdims d hd).2
      offsets_length := fun box hbox => (checkBoxes_ok hboxes box hbox).1
      extents_length := fun box hbox => (checkBoxes_ok hboxes box hbox).2 }

/-- The steps and the largest positions of the counters. -/
def bounds (p : DispatchPlan) : List Scan.Bound :=
  p.dimensions.map fun d => (d.2.1, d.2.2 - d.1)

/-- No counter leaves the word one step past its last position. -/
def StaysInWords (p : DispatchPlan) : Prop :=
  ∀ b ∈ p.bounds, b.2 / b.1 * b.1 + b.1 < Word.limit

instance (p : DispatchPlan) : Decidable p.StaysInWords :=
  inferInstanceAs (Decidable (∀ b ∈ p.bounds, _))

/-- What the `n`-th move of the counters from zero returns: whether the walk begins
    anew, and where it is then. -/
def after (p : DispatchPlan) : Nat → Fallible (Bool × List Nat)
  | 0 => .ok (false, p.sizes.map fun _ => 0)
  | n + 1 => do p.step (← p.after n).2

/-- A list of positions is the walk of a router: the tuples of multiples of the steps
    from which a window fits, the first coordinate fastest, gone through by the moves of
    the counters, of which only the last one reports that the walk begins anew. -/
structure Walks (p : DispatchPlan) (route : List (List Nat)) : Prop where
  mem_iff : ∀ counters, counters ∈ route
    ↔ List.Forall₂ (fun (d : Nat × Nat × Nat) x => d.2.1 ∣ x ∧ x ≤ d.2.2 - d.1)
        p.dimensions counters
  ordered : route.Pairwise fun c c' => c.reverse < c'.reverse
  length_eq : route.length = (p.dimensions.map fun d => (d.2.2 - d.1) / d.2.1 + 1).prod
  passes : ∀ k, (h : k < route.length) → p.after k = .ok (false, route[k])
  returns : p.after route.length = .ok (true, p.sizes.map fun _ => 0)

/-- How many windows of a walk a consumer gets. -/
def received (p : DispatchPlan) (box : DispatchBox) (route : List (List Nat)) : Nat :=
  route.countP fun counters => decide (p.inBox box counters = .ok true)

/-- The far ends of a box are words. -/
def EndsInWords (box : DispatchBox) : Prop :=
  ∀ side ∈ box.offsets.zip box.extents, side.1 + side.2 < Word.limit

instance (box : DispatchBox) : Decidable (EndsInWords box) :=
  inferInstanceAs (Decidable (∀ side ∈ box.offsets.zip box.extents, _))

variable {p : DispatchPlan}

theorem map_sizes (h : p.Checked) : (p.dimensions.map fun d => d.1) = p.sizes := by
  refine List.map_fst_zip ?_
  rw [List.length_zip, h.steps_length, h.stores_length, Nat.min_self]

theorem map_steps_stores (h : p.Checked) :
    (p.dimensions.map fun d => d.2) = p.steps.zip p.storeExtents := by
  refine List.map_snd_zip ?_
  rw [List.length_zip, h.steps_length, h.stores_length, Nat.min_self]

theorem map_steps (h : p.Checked) : (p.dimensions.map fun d => d.2.1) = p.steps := by
  have hsteps := congrArg (List.map Prod.fst) (map_steps_stores h)
  rw [List.map_map, List.map_fst_zip (by rw [h.steps_length, h.stores_length])] at hsteps
  exact hsteps

theorem map_stores (h : p.Checked) : (p.dimensions.map fun d => d.2.2) = p.storeExtents := by
  have hstores := congrArg (List.map Prod.snd) (map_steps_stores h)
  rw [List.map_map, List.map_snd_zip (by rw [h.steps_length, h.stores_length])] at hstores
  exact hstores

/-- The largest positions are the ones from which a window still fits. -/
theorem maxes_ok (h : p.Checked) : p.maxes = .ok (p.dimensions.map fun d => d.2.2 - d.1) := by
  have hpairs : p.storeExtents.zip p.sizes = p.dimensions.map fun d => (d.2.2, d.1) := by
    rw [← map_sizes h, ← map_stores h, List.zip_map']
  rw [maxes, hpairs, List.mapM_map]
  exact Fallible.mapM_of_ok fun d hd => Word.sub_eq_ok.mpr ⟨h.size_le d hd, rfl⟩

/-- A move of a router is a move of its counters. -/
theorem step_eq (h : p.Checked) (counters : List Nat) :
    p.step counters = stepCounters p.bounds counters := by
  have hbounds : p.steps.zip (p.dimensions.map fun d => d.2.2 - d.1) = p.bounds := by
    rw [← map_steps h, List.zip_map', bounds]
  rw [step, maxes_ok h, ← hbounds]
  rfl

theorem bounds_step_pos (h : p.Checked) : ∀ b ∈ p.bounds, 0 < b.1 := by
  intro b hb
  rcases List.mem_map.mp hb with ⟨d, hd, rfl⟩
  exact h.step_pos d hd

/-- Moves that return go through the positions in order, again and again. -/
theorem after_of_ok (h : p.Checked) {k : Nat} {answer : Bool × List Nat}
    (hafter : p.after k = .ok answer) :
    answer = (decide (0 < k ∧ k % Scan.visits p.bounds = 0),
      Scan.position p.bounds (k % Scan.visits p.bounds)) := by
  have hpos := Scan.visits_pos p.bounds
  induction k generalizing answer with
  | zero =>
      rw [← Except.ok.inj hafter, Nat.zero_mod, Scan.position_zero, ← map_sizes h, bounds,
        List.map_map, List.map_map]
      rfl
  | succ k ih =>
      have hlt : k % Scan.visits p.bounds < Scan.visits p.bounds := Nat.mod_lt k hpos
      rcases Fallible.bind_ok.mp hafter with ⟨before, hbefore, hstep⟩
      rw [ih hbefore, step_eq h] at hstep
      rw [Scan.stepCounters_of_ok (bounds_step_pos h) hlt hstep, Nat.mod_add_mod]
      -- The step from the last position leads to the first, and no other does.
      have hwraps : k % Scan.visits p.bounds + 1 = Scan.visits p.bounds
          ↔ 0 < k + 1 ∧ (k + 1) % Scan.visits p.bounds = 0 := by
        rw [← Nat.mod_add_mod]
        refine ⟨fun heq => ⟨by omega, by rw [heq, Nat.mod_self]⟩, fun hzero => ?_⟩
        by_contra hne
        rw [Nat.mod_eq_of_lt (by omega)] at hzero
        omega
      simp only [hwraps]

/-- A move that returns comes after moves that have returned. -/
theorem after_returns_of_le {k n : Nat} (hk : k ≤ n) (h : ∃ answer, p.after n = .ok answer) :
    ∃ answer, p.after k = .ok answer := by
  induction n with
  | zero => rwa [Nat.le_zero.mp hk]
  | succ n ih =>
      by_cases heq : k = n + 1
      · rwa [heq]
      · rcases h with ⟨answer, hanswer⟩
        rcases Fallible.bind_ok.mp hanswer with ⟨before, hbefore, _⟩
        exact ih (by omega) ⟨before, hbefore⟩

/-- Moves return one after the other just if the counters stay in words. -/
theorem after_returns_iff (h : p.Checked) :
    (∃ answer, p.after (Scan.visits p.bounds) = .ok answer) ↔ p.StaysInWords := by
  -- A move from the place behind `k` others is the step from position `k`.
  have hmove : ∀ k < Scan.visits p.bounds, ∀ before, p.after k = .ok before →
      ∀ answer, p.after (k + 1) = .ok answer
        ↔ stepCounters p.bounds (Scan.position p.bounds k) = .ok answer := by
    intro k hk before hbefore answer
    have hplace := after_of_ok h hbefore
    rw [Nat.mod_eq_of_lt hk] at hplace
    rw [after, hbefore, ← step_eq h, hplace]
    rfl
  rw [StaysInWords, ← Scan.stepCounters_returns_iff (bounds_step_pos h)]
  refine ⟨fun hends k hk => ?_, fun hmoves => ?_⟩
  · rcases after_returns_of_le (Nat.le_of_lt hk) hends with ⟨before, hbefore⟩
    rcases after_returns_of_le hk hends with ⟨answer, hanswer⟩
    exact ⟨answer, (hmove k hk before hbefore answer).mp hanswer⟩
  · have hreturns : ∀ k ≤ Scan.visits p.bounds, ∃ answer, p.after k = .ok answer := by
      intro k hk
      induction k with
      | zero => exact ⟨_, rfl⟩
      | succ k ih =>
          rcases ih (by omega) with ⟨before, hbefore⟩
          rcases hmoves k hk with ⟨answer, hanswer⟩
          exact ⟨answer, (hmove k hk before hbefore answer).mpr hanswer⟩
    exact hreturns _ (Nat.le_refl _)

/-- A walk that stays in words visits every position once and returns. -/
theorem walks_positions (h : p.Checked) (hwords : p.StaysInWords) :
    p.Walks (Scan.positions p.bounds) := by
  have hpos := Scan.visits_pos p.bounds
  have hreturns := (after_returns_iff h).mpr hwords
  have hlength := Scan.length_positions p.bounds
  exact {
    mem_iff := fun counters => by
      rw [Scan.mem_positions (bounds_step_pos h), bounds, List.forall₂_map_left_iff]
    ordered := Scan.pairwise_positions (bounds_step_pos h)
    length_eq := by
      rw [hlength, Scan.visits, bounds, List.map_map]
      rfl
    passes := fun k hk => by
      have hmod : k % Scan.visits p.bounds = k := Nat.mod_eq_of_lt (by omega)
      -- No position before the last one is where a walk ends.
      have hgoes : ¬(0 < k ∧ k = 0) := by omega
      rcases after_returns_of_le (k := k) (by omega) hreturns with ⟨answer, hanswer⟩
      rw [Scan.getElem_positions, hanswer, after_of_ok h hanswer, hmod, decide_eq_false hgoes]
    returns := by
      rcases hreturns with ⟨answer, hanswer⟩
      rw [hlength, hanswer, after_of_ok h hanswer, Nat.mod_self, Scan.position_zero,
        decide_eq_true ⟨hpos, rfl⟩, ← map_sizes h, bounds, List.map_map, List.map_map]
      rfl }

/-- The dimensions of the stream beside the offsets and extents of a box. -/
def sides (p : DispatchPlan) (box : DispatchBox) : List ((Nat × Nat × Nat) × Nat × Nat) :=
  p.dimensions.zip (box.offsets.zip box.extents)

/-- Whether a window at a coordinate lies in one side of a box. -/
def inSide (side : (Nat × Nat × Nat) × Nat × Nat) (x : Nat) : Bool :=
  decide (side.2.1 ≤ x ∧ x + side.1.1 ≤ side.2.1 + side.2.2)

section

variable {sides : List ((Nat × Nat × Nat) × Nat × Nat)} {counters : List Nat}

/-- A window that is told to lie in a box or not does so dimension by dimension. -/
theorem within_of_ok (hlength : counters.length = sides.length) {b : Bool}
    (h : within (sides.map fun side => (side.1.1, side.2)) counters = .ok b) :
    b = (sides.zip counters).all fun x => inSide x.1 x.2 := by
  induction sides generalizing counters b with
  | nil =>
      rw [List.eq_nil_of_length_eq_zero hlength] at h
      exact (Except.ok.inj h).symm
  | cons side sides ih =>
      rcases List.exists_cons_of_length_eq_add_one hlength with ⟨x, counters, rfl⟩
      rcases side with ⟨⟨size, step, store⟩, offset, extent⟩
      rw [List.map_cons, within] at h
      rw [List.zip_cons_cons, List.all_cons]
      -- A window that begins before the box lies outside, and no end is computed then.
      split at h
      next hbefore =>
        have hout : inSide ((size, step, store), offset, extent) x = false :=
          decide_eq_false fun hin => by simp only at hin; omega
        rw [← Except.ok.inj h, hout, Bool.false_and]
      next hbefore =>
        rcases Fallible.bind_ok.mp h with ⟨past, hpast, h⟩
        rcases Fallible.bind_ok.mp h with ⟨boxPast, hboxPast, h⟩
        have hpast : x + size = past := (Word.add_eq_ok.mp hpast).2
        have hboxPast : offset + extent = boxPast := (Word.add_eq_ok.mp hboxPast).2
        split at h
        next hle =>
          have hin : inSide ((size, step, store), offset, extent) x = true :=
            decide_eq_true ⟨by simp only; omega, by simp only; omega⟩
          rw [hin, Bool.true_and]
          exact ih (Nat.succ.inj hlength) h
        next hle =>
          have hout : inSide ((size, step, store), offset, extent) x = false :=
          decide_eq_false fun hin => by simp only at hin; omega
          rw [← Except.ok.inj h, hout, Bool.false_and]

/-- It is told of every window and box that end in words. -/
theorem within_returns (hlength : counters.length = sides.length)
    (hwindow : ∀ x ∈ sides.zip counters, x.2 + x.1.1.1 < Word.limit)
    (hbox : ∀ side ∈ sides, side.2.1 + side.2.2 < Word.limit) :
    ∃ b, within (sides.map fun side => (side.1.1, side.2)) counters = .ok b := by
  induction sides generalizing counters with
  | nil =>
      rw [List.eq_nil_of_length_eq_zero hlength]
      exact ⟨true, rfl⟩
  | cons side sides ih =>
      rcases List.exists_cons_of_length_eq_add_one hlength with ⟨x, counters, rfl⟩
      have hrest := ih (Nat.succ.inj hlength)
        (fun y hy => hwindow y (List.mem_cons_of_mem _ hy))
        fun other hother => hbox other (List.mem_cons_of_mem _ hother)
      have hpast : Word.add x side.1.1 = .ok (x + side.1.1) :=
        Word.add_eq_ok.mpr ⟨hwindow (side, x) (List.mem_cons_self ..), rfl⟩
      have hboxPast : Word.add side.2.1 side.2.2 = .ok (side.2.1 + side.2.2) :=
        Word.add_eq_ok.mpr ⟨hbox side (List.mem_cons_self ..), rfl⟩
      rw [List.map_cons, within, hpast, hboxPast]
      simp only [bind, Except.bind]
      -- One dimension outside ends the comparison, whatever the others are.
      split
      · exact ⟨false, rfl⟩
      · split
        · exact hrest
        · exact ⟨false, rfl⟩

end

section

variable {box : DispatchBox}

theorem map_fst_sides (h : p.Checked) (hbox : box ∈ p.consumers) :
    (p.sides box).map Prod.fst = p.dimensions := by
  refine List.map_fst_zip ?_
  rw [List.length_zip, h.offsets_length box hbox, h.extents_length box hbox, Nat.min_self,
    ← map_sizes h, List.length_map]

theorem map_snd_sides (h : p.Checked) (hbox : box ∈ p.consumers) :
    (p.sides box).map Prod.snd = box.offsets.zip box.extents := by
  refine List.map_snd_zip ?_
  rw [List.length_zip, h.offsets_length box hbox, h.extents_length box hbox, Nat.min_self,
    ← map_sizes h, List.length_map]

theorem sizes_zip_sides (h : p.Checked) (hbox : box ∈ p.consumers) :
    p.sizes.zip (box.offsets.zip box.extents)
      = (p.sides box).map fun side => (side.1.1, side.2) := by
  rw [← map_snd_sides h hbox, ← map_sizes h, ← map_fst_sides h hbox, List.map_map, List.zip_map']
  rfl

theorem inBox_eq (h : p.Checked) (hbox : box ∈ p.consumers) (counters : List Nat) :
    p.inBox box counters = within ((p.sides box).map fun side => (side.1.1, side.2)) counters := by
  rw [inBox, sizes_zip_sides h hbox]

theorem length_sides (h : p.Checked) (hbox : box ∈ p.consumers) {counters : List Nat}
    (hmem : counters ∈ Scan.positions p.bounds) : counters.length = (p.sides box).length := by
  rw [← ((Scan.mem_positions (bounds_step_pos h)).mp hmem).length_eq, bounds, List.length_map,
    ← map_fst_sides h hbox, List.length_map]

/-- Whether a consumer gets a window of the walk is told if its box ends in words. -/
theorem inBox_returns (h : p.Checked) (hstores : ∀ store ∈ p.storeExtents, store < Word.limit)
    (hbox : box ∈ p.consumers) (hends : EndsInWords box) {counters : List Nat}
    (hmem : counters ∈ Scan.positions p.bounds) : ∃ b, p.inBox box counters = .ok b := by
  rw [inBox_eq h hbox]
  refine within_returns (length_sides h hbox hmem) (fun x hx => ?_) fun side hside => ?_
  -- A position of the walk leaves room for the window in the store, and so in a word.
  · have hgrid := (Scan.mem_positions (bounds_step_pos h)).mp hmem
    rw [bounds, List.forall₂_map_left_iff, ← map_fst_sides h hbox,
      List.forall₂_map_left_iff] at hgrid
    have hle := (List.forall₂_zip hgrid hx).2
    have hdim : x.1.1 ∈ p.dimensions := by
      rw [← map_fst_sides h hbox]
      exact List.mem_map_of_mem (List.of_mem_zip hx).1
    have hsize := h.size_le _ hdim
    have hstore : x.1.1.2.2 < Word.limit := by
      refine hstores _ ?_
      rw [← map_stores h]
      exact List.mem_map_of_mem hdim
    omega
  · refine hends side.2 ?_
    rw [← map_snd_sides h hbox]
    exact List.mem_map_of_mem hside

/-- The windows a consumer gets are counted dimension by dimension. -/
theorem received_positions (h : p.Checked) (hbox : box ∈ p.consumers)
    (htold : ∀ counters ∈ Scan.positions p.bounds, ∃ b, p.inBox box counters = .ok b) :
    p.received box (Scan.positions p.bounds)
      = ((p.sides box).map fun side =>
          (List.range ((side.1.2.2 - side.1.1) / side.1.2.1 + 1)).countP fun k =>
            inSide side (k * side.1.2.1)).prod := by
  -- A window is in the box if each coordinate is, and the positions are all combinations.
  have htest : p.received box (Scan.positions p.bounds)
      = (Scan.positions p.bounds).countP fun counters =>
          ((p.sides box).zip counters).all fun x => inSide x.1 x.2 := by
    refine List.countP_congr fun counters hmem => ?_
    rcases htold counters hmem with ⟨b, hb⟩
    rw [hb, decide_eq_true_iff, Except.ok.injEq]
    rw [inBox_eq h hbox] at hb
    rw [within_of_ok (length_sides h hbox hmem) hb]
  have hpositions : Scan.positions p.bounds
      = rowMajor ((p.sides box).map fun side =>
          Scan.stops (side.1.2.1, side.1.2.2 - side.1.1)) := by
    rw [Scan.positions, bounds, ← map_fst_sides h hbox, List.map_map, List.map_map]
    rfl
  rw [htest, hpositions, countP_rowMajor]
  refine congrArg List.prod (List.map_congr_left fun side _ => ?_)
  rw [Scan.stops, List.countP_map]
  rfl

end

/-- If every window of a walk lies in one box the consumers get all of them between
    them. -/
theorem sum_received (boxes : List DispatchBox) {route : List (List Nat)}
    (hone : ∀ counters ∈ route,
      boxes.countP (fun box => decide (p.inBox box counters = .ok true)) = 1) :
    (boxes.map fun box => p.received box route).sum = route.length := by
  induction route with
  | nil => simp [received]
  | cons counters route ih =>
      have hrest := ih fun c hc => hone c (List.mem_cons_of_mem _ hc)
      have hhead := hone counters (List.mem_cons_self ..)
      simp only [received, List.countP_cons, List.sum_map_add, List.length_cons] at hrest ⊢
      rw [List.countP_eq_length_filter] at hhead
      rw [hrest, List.sum_map_ite]
      simp [hhead]

/-- A walk comes to its end just if no counter leaves the word one step past its last
    position. It has then visited every position once, every consumer whose box can be
    compared with its windows gets as many of them as the numbers for each dimension
    multiply to, and if each window lies in one box the consumers get all of them. -/
theorem walk_ends_iff (hcheck : p.check = .ok ())
    (hstores : ∀ store ∈ p.storeExtents, store < Word.limit) :
    ((∃ answer, p.after (p.dimensions.map fun d => (d.2.2 - d.1) / d.2.1 + 1).prod = .ok answer)
        ↔ p.StaysInWords)
      ∧ (p.StaysInWords → ∃ route, p.Walks route
        ∧ (∀ box ∈ p.consumers,
          (EndsInWords box → ∀ counters ∈ route, ∃ b, p.inBox box counters = .ok b)
          ∧ ((∀ counters ∈ route, ∃ b, p.inBox box counters = .ok b) →
            p.received box route
              = ((p.dimensions.zip (box.offsets.zip box.extents)).map
                  fun ((size, step, store), offset, extent) =>
                    (List.range ((store - size) / step + 1)).countP fun k =>
                      offset ≤ k * step ∧ k * step + size ≤ offset + extent).prod))
        ∧ ((∀ counters ∈ route,
            p.consumers.countP (fun box => decide (p.inBox box counters = .ok true)) = 1) →
          (p.consumers.map fun box => p.received box route).sum = route.length)) := by
  have h := checked_of_check hcheck
  have hvisits : (p.dimensions.map fun d => (d.2.2 - d.1) / d.2.1 + 1).prod
      = Scan.visits p.bounds := by
    rw [Scan.visits, bounds, List.map_map]
    rfl
  refine ⟨?_, fun hwords => ⟨Scan.positions p.bounds, walks_positions h hwords, ?_, ?_⟩⟩
  · rw [hvisits]
    exact after_returns_iff h
  · intro box hbox
    refine ⟨fun hends counters hmem => inBox_returns h hstores hbox hends hmem, fun htold => ?_⟩
    exact received_positions h hbox htold
  · exact sum_received p.consumers

/-- A router whose steps divide neither of its dimensions. Its boxes split the walk at
    the third position of the first one. -/
def unevenRouter : DispatchPlan :=
  ⟨[2, 1], [3, 2], [10, 4], [⟨"near", 1, [0, 0], [7, 4]⟩, ⟨"far", 1, [6, 0], [4, 3]⟩]⟩

theorem walk_ends_iff_unevenRouter :
    unevenRouter.check = .ok ()
      ∧ (∀ store ∈ unevenRouter.storeExtents, store < Word.limit)
      ∧ ∃ route, unevenRouter.Walks route ∧ route.length = 6
        ∧ (unevenRouter.consumers.map fun box => unevenRouter.received box route) = [4, 2] := by
  have hcheck : unevenRouter.check = .ok () := by decide
  have hstores : ∀ store ∈ unevenRouter.storeExtents, store < Word.limit := by decide
  rcases (walk_ends_iff hcheck hstores).2 (by decide) with ⟨route, hwalks, hboxes, _⟩
  refine ⟨hcheck, hstores, route, hwalks, hwalks.length_eq.trans (by decide), ?_⟩
  have hreceived : ∀ box ∈ unevenRouter.consumers, unevenRouter.received box route
      = if box.name = "near" then 4 else 2 := by
    intro box hbox
    have hends : EndsInWords box := by revert box; decide
    rw [(hboxes box hbox).2 ((hboxes box hbox).1 hends)]
    revert box
    decide
  rw [List.map_congr_left hreceived]
  decide

/-- A router with windows of one element that moves by half of all words. -/
def farRouter : DispatchPlan := ⟨[1], [Word.limit / 2], [Word.limit - 1], []⟩

/-- Its second move gives way, so it has no walk. -/
theorem farRouter_not_walks :
    farRouter.check = .ok () ∧ (∀ size ∈ farRouter.sizes, 1 ≤ size)
      ∧ farRouter.after 2 = giveWay .overflow ∧ ¬∃ route, farRouter.Walks route := by
  have hfault : farRouter.after 2 = giveWay .overflow := by decide
  refine ⟨by decide, by decide +kernel, hfault, ?_⟩
  rintro ⟨route, hwalks⟩
  have hlength : route.length = 2 := hwalks.length_eq.trans (by decide)
  have hreturns := hwalks.returns
  rw [hlength, hfault] at hreturns
  exact absurd hreturns (by simp [giveWay])

end DispatchPlan

end StencilRtl
