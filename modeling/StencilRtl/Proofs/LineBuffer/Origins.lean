import Mathlib.Data.Set.Function
import Mathlib.Tactic.Ring
import StencilRtl.Proofs.LineBuffer.Plan
import StencilRtl.Proofs.Registers.Layout

/-!
# Where the Elements of a Window Come From

Every element of a window is traced back to the tile it came in.

A window is numbered once for its whole box, and once by the column stage, which counts columns
and what rides along in them. A slice is numbered by the row stage in a third way. All of these
count the first coordinate fastest, so each of them is a sum of digits, and the digits come back
by divisions and remainders. `number` is that sum, and in words it is `flatIndex` as long as it
is a word itself.

A plan speaks of fewer dimensions than the shapes it was made for. What folding does to them is
one step on coordinates: two of them become one, by counting through both. The first of the two
is that of a dimension that is passed whole, so it is less than the extent of a tile and all of
it stays in the remainder. `SameElement` says what such a step keeps, and steps go together.

What is left are the coordinates of a solid: a column, a row and what is carried. If the second
dimension of the solid is carried as well, there is no row stage, and the row is part of what
rides along.

## Main definitions

* `number`: The number of an element, as a natural number.
* `ColumnStage.Numbered`, `RowStage.Numbered`: A stage numbers its elements and finds all of them.
* `LineBufferPlan.Leads`: Following an element of a window back to a tile.
* `LineBufferPlan.SameElement`: Coordinates in two lists of dimensions that are one element.
* `LineBufferPlan.Solid`: The solid a plan speaks of.

## Theorems

* `flatIndex_eq_number`: Numbers that are words are computed.
* `ColumnStage.numbered_of_dvd`, `RowStage.numbered_of_dvd`: Stages of whole tiles number their
  elements.
* `LineBufferPlan.exists_sameElement_folded`: Folding keeps the elements.
* `LineBufferPlan.Solid.leads`: The way back from a place in a solid.
* `LineBufferPlan.origins`: The way back from every element of a window.
-/

namespace StencilRtl

/-- The number of an element, the first coordinate counted fastest. -/
def number : List Nat → List Nat → Nat
  | extent :: extents, i :: index => i + extent * number extents index
  | _, _ => 0

/-- A number that is a word is computed without leaving words on the way. -/
theorem flatIndex_eq_number {extents index : List Nat} (hpos : ∀ extent ∈ extents, 0 < extent)
    (h : number extents index < Word.limit) :
    flatIndex extents index = .ok (number extents index) := by
  induction extents generalizing index with
  | nil => cases index <;> rfl
  | cons extent extents ih =>
      cases index with
      | nil => rfl
      | cons i index =>
          rw [List.forall_mem_cons] at hpos
          rw [number] at h ⊢
          -- The number of the rest is no larger than the whole number, as the extent is not zero.
          have hle := Nat.le_mul_of_pos_left (number extents index) hpos.1
          have hmul : Word.mul (number extents index) extent
              = .ok (extent * number extents index) :=
            Word.mul_eq_ok.mpr ⟨by rw [Nat.mul_comm]; omega, Nat.mul_comm ..⟩
          have hadd : Word.add (extent * number extents index) i
              = .ok (i + extent * number extents index) :=
            Word.add_eq_ok.mpr ⟨by omega, Nat.add_comm ..⟩
          rw [flatIndex_cons]
          exact Fallible.bind_ok.mpr
            ⟨_, ih hpos.2 (by omega), Fallible.bind_ok.mpr ⟨_, hmul, hadd⟩⟩

/-- Counting through two dimensions reaches every number below their product once. -/
theorem bijOn_pair {m n : Nat} : Set.BijOn (fun q : Nat × Nat => q.1 + m * q.2)
    {q | q.1 < m ∧ q.2 < n} (Set.Iio (m * n)) := by
  refine ⟨fun q hq => pair_lt hq.1 hq.2, fun q hq q' hq' heq => ?_, fun k (hk : k < m * n) => ?_⟩
  · have hdigits := pair_mod_div hq.1 q.2
    have hdigits' := pair_mod_div hq'.1 q'.2
    simp only [] at heq
    rw [heq] at hdigits
    exact Prod.ext (hdigits.1.symm.trans hdigits'.1) (hdigits.2.symm.trans hdigits'.2)
  · have hm : 0 < m := Nat.pos_of_mul_pos_right (Nat.zero_lt_of_lt hk)
    exact ⟨(k % m, k / m), ⟨Nat.mod_lt _ hm, Nat.div_lt_of_lt_mul hk⟩, Nat.mod_add_div ..⟩

/-- So does counting through three. -/
theorem bijOn_triple {l m n : Nat} :
    Set.BijOn (fun q : Nat × Nat × Nat => q.1 + l * (q.2.1 + m * q.2.2))
      {q | q.1 < l ∧ q.2.1 < m ∧ q.2.2 < n} (Set.Iio (l * (m * n))) := by
  refine bijOn_pair.comp (g := fun q : Nat × Nat => q.1 + l * q.2)
    (f := fun q : Nat × Nat × Nat => (q.1, q.2.1 + m * q.2.2)) ⟨?_, ?_, ?_⟩
  · exact fun q hq => ⟨hq.1, bijOn_pair.mapsTo hq.2⟩
  · intro q hq q' hq' heq
    rw [Prod.mk.injEq] at heq
    exact Prod.ext heq.1 (bijOn_pair.injOn hq.2 hq'.2 heq.2)
  · intro q hq
    rcases bijOn_pair.surjOn hq.2 with ⟨inner, hinner, heq⟩
    exact ⟨(q.1, inner), ⟨hq.1, hinner⟩, Prod.ext rfl heq⟩

/-- A computation of such numbers reaches them as well. -/
theorem bijOn_ok {α : Type} {f : α → Fallible Nat} {g : α → Nat} {box : Set α} {count : Nat}
    (hbij : Set.BijOn g box (Set.Iio count)) (hf : ∀ q ∈ box, f q = .ok (g q)) :
    Set.BijOn f box (Except.ok '' Set.Iio count) := by
  have hok : Set.BijOn (Except.ok : Nat → Fallible Nat) (Set.Iio count)
      (Except.ok '' Set.Iio count) :=
    Set.InjOn.bijOn_image fun _ _ _ _ heq => Except.ok.inj heq
  exact (hok.comp hbij).congr fun q hq => (hf q hq).symm

namespace ColumnStage

/-- A column stage gives each element of a window a number of its own below the size of the
    window, and finds it in a tile that is kept or has just come. -/
structure Numbered (s : ColumnStage) : Prop where
  bijOn : Set.BijOn (fun q : Nat × Nat => s.outIndex q.1 q.2)
    {q | q.1 < s.window ∧ q.2 < s.height} (Except.ok '' Set.Iio (s.window * s.height))
  source : ∃ kept, s.buffers = .ok kept ∧ ∀ j < s.window, ∀ r < s.height,
    ∃ position element, s.source j r = .ok (position, element) ∧ position ≤ kept ∧
      element < s.tile * s.height

variable {s : ColumnStage} (htile : 0 < s.tile) (hle : s.tile ≤ s.window)
  (hroom : s.window * s.height < Word.limit)

include hroom in
theorem outIndex_ok {j r : Nat} (hj : j < s.window) (hr : r < s.height) :
    s.outIndex j r = .ok (j + s.window * r) := by
  have hlt : j + s.window * r < s.window * s.height := pair_lt hj hr
  exact Fallible.bind_ok.mpr ⟨_, Word.mul_eq_ok.mpr ⟨by omega, rfl⟩,
    Word.add_eq_ok.mpr ⟨by omega, rfl⟩⟩

include htile hle hroom

theorem source_ok {j r : Nat} (hr : r < s.height) :
    s.source j r = .ok (j / s.tile, j % s.tile + s.tile * r) := by
  have hlt : j % s.tile + s.tile * r < s.tile * s.height := pair_lt (Nat.mod_lt _ htile) hr
  have htiles := Nat.mul_le_mul_right s.height hle
  exact Fallible.bind_ok.mpr ⟨_, if_neg (Nat.ne_of_gt htile), Fallible.bind_ok.mpr
    ⟨_, if_neg (Nat.ne_of_gt htile), Fallible.bind_ok.mpr ⟨_, Word.mul_eq_ok.mpr ⟨by omega, rfl⟩,
      Fallible.bind_ok.mpr ⟨_, Word.add_eq_ok.mpr ⟨by omega, rfl⟩, rfl⟩⟩⟩⟩

/-- A stage of whole tiles numbers its elements. -/
theorem numbered_of_dvd (hdvd : s.tile ∣ s.window) : s.Numbered := by
  have hkept : s.buffers = .ok (s.window / s.tile - 1) :=
    Fallible.bind_ok.mpr ⟨_, if_neg (Nat.ne_of_gt htile),
      Word.sub_eq_ok.mpr ⟨Nat.div_pos hle htile, rfl⟩⟩
  refine ⟨bijOn_ok bijOn_pair fun q hq => outIndex_ok hroom hq.1 hq.2, _, hkept,
    fun j hj r hr => ⟨_, _, source_ok htile hle hroom hr, ?_, pair_lt (Nat.mod_lt _ htile) hr⟩⟩
  have hposition : j / s.tile < s.window / s.tile := Nat.div_lt_div_of_lt_of_dvd hdvd hj
  omega

end ColumnStage

namespace RowStage

/-- A row stage gives each element of a slice a number of its own below the size of the slice,
    and finds it in a tile of a row that is kept or of the one that has just come. -/
structure Numbered (s : RowStage) : Prop where
  bijOn : Set.BijOn (fun q : Nat × Nat × Nat => s.outIndex q.1 q.2.1 q.2.2)
    {q | q.1 < s.tile0 ∧ q.2.1 < s.window1 ∧ q.2.2 < s.carry}
    (Except.ok '' Set.Iio s.sliceExtents.prod)
  source : ∃ kept, s.buffers = .ok kept ∧ ∀ i < s.tile0, ∀ j < s.window1, ∀ k < s.carry,
    ∃ position element, s.source i j k = .ok (position, element) ∧ position ≤ kept ∧
      element < s.tile0 * (s.tile1 * s.carry)

variable {s : RowStage} (htile : 0 < s.tile1) (hle : s.tile1 ≤ s.window1)
  (hroom : s.tile0 * (s.window1 * s.carry) < Word.limit)

include hroom in
theorem outIndex_ok {i j k : Nat} (hi : i < s.tile0) (hj : j < s.window1) (hk : k < s.carry) :
    s.outIndex i j k = .ok (i + s.tile0 * (j + s.window1 * k)) := by
  have hplane : j + s.window1 * k < s.window1 * s.carry := pair_lt hj hk
  have hplace : i + s.tile0 * (j + s.window1 * k) < s.tile0 * (s.window1 * s.carry) :=
    pair_lt hi hplane
  have hwithin := Nat.le_mul_of_pos_left (j + s.window1 * k) (Nat.zero_lt_of_lt hi)
  exact Fallible.bind_ok.mpr ⟨_, Word.mul_eq_ok.mpr ⟨by omega, rfl⟩, Fallible.bind_ok.mpr
    ⟨_, Word.add_eq_ok.mpr ⟨by omega, rfl⟩, Fallible.bind_ok.mpr
      ⟨_, Word.mul_eq_ok.mpr ⟨by omega, rfl⟩, Word.add_eq_ok.mpr ⟨by omega, rfl⟩⟩⟩⟩

include htile hle hroom

theorem source_ok {i j k : Nat} (hi : i < s.tile0) (hk : k < s.carry) :
    s.source i j k
      = .ok (j / s.tile1, i + s.tile0 * (j % s.tile1 + s.tile1 * k)) := by
  have hplane : j % s.tile1 + s.tile1 * k < s.tile1 * s.carry := pair_lt (Nat.mod_lt _ htile) hk
  have hplace : i + s.tile0 * (j % s.tile1 + s.tile1 * k) < s.tile0 * (s.tile1 * s.carry) :=
    pair_lt hi hplane
  have hwithin := Nat.le_mul_of_pos_left (j % s.tile1 + s.tile1 * k) (Nat.zero_lt_of_lt hi)
  have htiles := Nat.mul_le_mul_left s.tile0 (Nat.mul_le_mul_right s.carry hle)
  exact Fallible.bind_ok.mpr ⟨_, if_neg (Nat.ne_of_gt htile), Fallible.bind_ok.mpr
    ⟨_, if_neg (Nat.ne_of_gt htile), Fallible.bind_ok.mpr ⟨_, Word.mul_eq_ok.mpr ⟨by omega, rfl⟩,
      Fallible.bind_ok.mpr ⟨_, Word.add_eq_ok.mpr ⟨by omega, rfl⟩, Fallible.bind_ok.mpr
        ⟨_, Word.mul_eq_ok.mpr ⟨by omega, rfl⟩, Fallible.bind_ok.mpr
          ⟨_, Word.add_eq_ok.mpr ⟨by omega, rfl⟩, rfl⟩⟩⟩⟩⟩⟩

/-- A stage of whole tiles numbers its elements. -/
theorem numbered_of_dvd (hdvd : s.tile1 ∣ s.window1) : s.Numbered := by
  have hkept : s.buffers = .ok (s.window1 / s.tile1 - 1) :=
    Fallible.bind_ok.mpr ⟨_, if_neg (Nat.ne_of_gt htile),
      Word.sub_eq_ok.mpr ⟨Nat.div_pos hle htile, rfl⟩⟩
  have hslice : s.sliceExtents.prod = s.tile0 * (s.window1 * s.carry) := by
    simp [sliceExtents]
  refine ⟨hslice ▸ bijOn_ok bijOn_triple fun q hq => outIndex_ok hroom hq.1 hq.2.1 hq.2.2, _,
    hkept, fun i hi j hj k hk => ⟨_, _, source_ok htile hle hroom hi hk, ?_,
      pair_lt hi (pair_lt (Nat.mod_lt _ htile) hk)⟩⟩
  have hposition : j / s.tile1 < s.window1 / s.tile1 := Nat.div_lt_div_of_lt_of_dvd hdvd hj
  omega

end RowStage

namespace LineBufferPlan

/-- Following the element with a number of a window back through the stages leads to a tile, told
    by its column and, after a row stage, its row, both counted from the oldest one, and to the
    element of that tile with a number. -/
inductive Leads (columns : ColumnStage) : Option RowStage → Nat → List Nat → Nat → Prop
  | column {j r flat column element : Nat} (hj : j < columns.window) (hr : r < columns.height)
      (hindex : columns.outIndex j r = .ok flat)
      (hsource : columns.source j r = .ok (column, element)) :
      Leads columns none flat [column] element
  | row {rows : RowStage} {j r flat column inner i j' k row element : Nat}
      (hj : j < columns.window) (hr : r < columns.height)
      (hindex : columns.outIndex j r = .ok flat)
      (hsource : columns.source j r = .ok (column, inner)) (hi : i < rows.tile0)
      (hj' : j' < rows.window1) (hk : k < rows.carry) (hindex' : rows.outIndex i j' k = .ok inner)
      (hsource' : rows.source i j' k = .ok (row, element)) :
      Leads columns (some rows) flat [column, row] element

/-- Coordinates in the windows of some dimensions and in those of others are one element of a
    window and of a tile. Of the tiles of the former the first `before` coordinates are zero. -/
structure SameElement (before : Nat) (ds ds' : List LineBufferDimension) (x y : List Nat) :
    Prop where
  inside : Inside (ds'.map (·.window)) y
  window : number (ds.map (·.window)) x = number (ds'.map (·.window)) y
  element : number (ds.map (·.tile)) (List.zipWith (· % ·) x (ds.map (·.tile)))
    = number (ds'.map (·.tile)) (List.zipWith (· % ·) y (ds'.map (·.tile)))
  offsets : List.zipWith (· / ·) x (ds.map (·.tile))
    = List.replicate before 0 ++ List.zipWith (· / ·) y (ds'.map (·.tile))

theorem SameElement.trans {before before' : Nat} {ds ds' ds'' : List LineBufferDimension}
    {x y z : List Nat} (h : SameElement before ds ds' x y)
    (h' : SameElement before' ds' ds'' y z) : SameElement (before + before') ds ds'' x z where
  inside := h'.inside
  window := h.window.trans h'.window
  element := h.element.trans h'.element
  offsets := by rw [h.offsets, h'.offsets, List.replicate_add, List.append_assoc]

/-- Counting through two dimensions, of which the first one is passed whole. -/
theorem sameElement_merge {d n : LineBufferDimension} {rest : List LineBufferDimension}
    (hwhole : d.isWhole = true) {x₀ x₁ : Nat} {xs : List Nat}
    (h : Inside ((d :: n :: rest).map (·.window)) (x₀ :: x₁ :: xs)) :
    SameElement 1 (d :: n :: rest)
      (⟨n.tile * d.tile, n.window * d.window, n.image * d.image⟩ :: rest) (x₀ :: x₁ :: xs)
      ((x₀ + d.tile * x₁) :: xs) := by
  -- A dimension that is passed whole has one extent for everything, and its coordinate stays below
  -- it. So it is the lower digit of the merged coordinate, and no tile cuts it.
  rcases LineBufferDimension.isWhole_eq hwhole with ⟨htile, hwindow⟩
  rcases List.forall₂_cons.mp h with ⟨hx₀, h⟩
  rcases List.forall₂_cons.mp h with ⟨hx₁, hrest⟩
  have hsame : d.window = d.tile := hwindow.trans htile.symm
  replace hx₀ : x₀ < d.tile := hsame ▸ hx₀
  have hdigits := pair_mod_div hx₀ x₁
  refine ⟨.cons ?_ hrest, ?_, ?_, ?_⟩
  · change x₀ + d.tile * x₁ < n.window * d.window
    rw [hsame, Nat.mul_comm n.window]
    exact pair_lt hx₀ hx₁
  · simp only [List.map_cons, number, hsame]
    ring
  · have hmod : (x₀ + d.tile * x₁) % (n.tile * d.tile) = x₀ + d.tile * (x₁ % n.tile) := by
      rw [Nat.mul_comm n.tile, Nat.mod_mul, hdigits.1, hdigits.2]
    simp only [List.map_cons, List.zipWith_cons_cons, number, hmod, Nat.mod_eq_of_lt hx₀]
    ring
  · have hdiv : (x₀ + d.tile * x₁) / (n.tile * d.tile) = x₁ / n.tile := by
      rw [Nat.mul_comm n.tile, ← Nat.div_div_eq_div_mul, hdigits.2]
    simp [hdiv, Nat.div_eq_of_lt hx₀]

/-- Folding keeps the elements of all windows. -/
theorem exists_sameElement_folded {d first : LineBufferDimension}
    {rest left : List LineBufferDimension} (h : folded d rest = .ok (first, left)) :
    ∃ before, ∀ x, Inside ((d :: rest).map (·.window)) x →
      ∃ y, SameElement before (d :: rest) (first :: left) x y := by
  induction rest generalizing d with
  | nil =>
      rcases Except.ok.inj h with ⟨⟩
      exact ⟨0, fun x hx => ⟨x, hx, rfl, rfl, rfl⟩⟩
  | cons n rest ih =>
      rcases folded_cons h with ⟨hwhole, h⟩ | hleft
      · rcases ih h with ⟨before, hbefore⟩
        refine ⟨1 + before, fun x hx => ?_⟩
        -- Two dimensions are merged, so the tuple has two coordinates at least.
        match x, hx with
        | _ :: _ :: _, hx =>
            have hmerged := sameElement_merge hwhole hx
            rcases hbefore _ hmerged.inside with ⟨y, hy⟩
            exact ⟨y, hmerged.trans hy⟩
      · rcases hleft with ⟨⟩
        exact ⟨0, fun x hx => ⟨x, hx, rfl, rfl, rfl⟩⟩

/-- The solid a plan speaks of: its second dimension is that of the plan, or is carried along with
    the depth because no windows overlap in it. -/
structure Solid (p : LineBufferPlan) (second : LineBufferDimension) (depth : Nat) : Prop where
  first_tile : 0 < p.first.tile
  first_window : 0 < p.first.window
  first_dvd : p.first.tile ∣ p.first.window
  second_tile : 0 < second.tile
  second_window : 0 < second.window
  second_dvd : second.tile ∣ second.window
  carried : (p.second = none ∧ second.tile = second.window ∧ p.carry = second.tile * depth) ∨
    (p.second = some second ∧ second.tile ≠ second.window ∧ p.carry = depth)

/-- Coordinates name a place in a solid. Where the plan has a second dimension its row leads to a
    tile, and behind it the last `after` coordinates of the tile are zero. -/
structure Spot (p : LineBufferPlan) (second : LineBufferDimension) (depth after : Nat)
    (ds : List LineBufferDimension) (x : List Nat) (u v k : Nat) : Prop where
  column : u < p.first.window
  row : v < second.window
  plane : k < depth
  window : number (ds.map (·.window)) x = u + p.first.window * (v + second.window * k)
  element : number (ds.map (·.tile)) (List.zipWith (· % ·) x (ds.map (·.tile)))
    = u % p.first.tile + p.first.tile * (v % second.tile + second.tile * k)
  offsets : List.zipWith (· / ·) x (ds.map (·.tile))
    = (u / p.first.tile :: p.second.toList.map fun d => v / d.tile) ++ List.replicate after 0

namespace Solid

variable {p : LineBufferPlan} {second : LineBufferDimension} {depth : Nat}
  (h : p.Solid second depth)

include h

/-- A row that is carried leads to no other tile. -/
theorem row_offset {v : Nat} (hv : v < second.window) :
    [v / second.tile] = (p.second.toList.map fun d => v / d.tile)
      ++ List.replicate (1 - p.second.toList.length) 0 := by
  rcases h.carried with ⟨hnone, hwhole, _⟩ | ⟨hsome, _⟩
  · simp [hnone, Nat.div_eq_of_lt (hwhole ▸ hv)]
  · simp [hsome]

/-- A window of a plan is a window of the solid. -/
theorem windowVolume_eq : p.windowVolume = p.first.window * (second.window * depth) := by
  rcases h.carried with ⟨hnone, hwhole, hcarry⟩ | ⟨hsome, _, hcarry⟩
  · simp [windowVolume, hnone, hcarry, hwhole]
  · simp [windowVolume, hsome, hcarry]

/-- The row stage of a solid whose second dimension is not carried. -/
theorem rowStage_ok : (p.second = none ∧ p.rowStage = .ok none) ∨
    (p.second = some second ∧ p.rowStage = .ok (some ⟨p.first.tile, second.tile, second.window,
      p.first.image / p.first.tile, second.image / second.tile, depth⟩)) := by
  rw [rowStage]
  rcases h.carried with ⟨hnone, _⟩ | ⟨hsome, _, hcarry⟩
  · rw [hnone]
    exact .inl ⟨rfl, rfl⟩
  · refine .inr ⟨hsome, ?_⟩
    simp only [hsome, hcarry, Word.div, if_neg (Nat.ne_of_gt h.first_tile),
      if_neg (Nat.ne_of_gt h.second_tile)]
    rfl

/-- The column stage of a solid. What rides along in its tiles are the rows and the planes. -/
theorem columnStage_ok (hroom : second.window * depth < Word.limit) :
    p.columnStage = .ok ⟨p.first.tile, p.first.window, p.first.image / p.first.tile,
      second.window * depth⟩ := by
  have hdiv : Word.div p.first.image p.first.tile = .ok (p.first.image / p.first.tile) :=
    if_neg (Nat.ne_of_gt h.first_tile)
  rcases h.rowStage_ok with ⟨hnone, hrows⟩ | ⟨hsome, hrows⟩
  · rcases h.carried with ⟨_, hwhole, hcarry⟩ | ⟨hsome, _⟩
    · rw [columnStage, hrows, hdiv, hcarry, hwhole]
      rfl
    · exact absurd (hnone.symm.trans hsome) (by simp)
  · have hmul : Word.mul second.window depth = .ok (second.window * depth) :=
      Word.mul_eq_ok.mpr ⟨hroom, rfl⟩
    rw [columnStage, hrows, hdiv]
    simp only [bind, Except.bind, hmul]
    rfl

/-- The stages of a solid number their elements, and from every place of a window they lead to the
    tile its column and its row lie in. -/
theorem leads (hroom : p.first.window * (second.window * depth) < Word.limit) :
    ∃ columns rows, p.columnStage = .ok columns ∧ p.rowStage = .ok rows ∧ columns.Numbered ∧
      (∀ s ∈ rows, s.Numbered) ∧ ∀ u < p.first.window, ∀ v < second.window, ∀ k < depth,
        Leads columns rows (u + p.first.window * (v + second.window * k))
          (u / p.first.tile :: p.second.toList.map fun d => v / d.tile)
          (u % p.first.tile + p.first.tile * (v % second.tile + second.tile * k)) := by
  have hle := Nat.le_of_dvd h.first_window h.first_dvd
  have hheight := Nat.le_mul_of_pos_left (second.window * depth) h.first_window
  have hcolumns := h.columnStage_ok (Nat.lt_of_le_of_lt hheight hroom)
  have hnumbered := ColumnStage.numbered_of_dvd (s := ⟨p.first.tile, p.first.window,
    p.first.image / p.first.tile, second.window * depth⟩) h.first_tile hle hroom h.first_dvd
  rcases h.rowStage_ok with ⟨hnone, hrows⟩ | ⟨hsome, hrows⟩
  · have hwhole : second.tile = second.window := by
      rcases h.carried with ⟨_, hwhole, _⟩ | ⟨hsome, _⟩
      · exact hwhole
      · exact absurd (hnone.symm.trans hsome) (by simp)
    -- Rows that are carried ride along in the columns, and none of them is in another tile.
    refine ⟨_, none, hcolumns, hrows, hnumbered, by simp, fun u hu v hv k hk => ?_⟩
    have hride : v + second.window * k < second.window * depth := pair_lt hv hk
    rw [hnone, hwhole, Nat.mod_eq_of_lt hv]
    exact .column hu hride (ColumnStage.outIndex_ok hroom hu hride)
      (ColumnStage.source_ok h.first_tile hle hroom hride)
  · have hle' := Nat.le_of_dvd h.second_window h.second_dvd
    have hslice : p.first.tile * (second.window * depth) < Word.limit :=
      Nat.lt_of_le_of_lt (Nat.mul_le_mul_right _ hle) hroom
    refine ⟨_, some _, hcolumns, hrows, hnumbered, ?_, fun u hu v hv k hk => ?_⟩
    · rintro s ⟨⟩
      exact RowStage.numbered_of_dvd h.second_tile hle' hslice h.second_dvd
    -- The tiles of the columns are slices, and the row stage numbers their elements.
    have hride : v + second.window * k < second.window * depth := pair_lt hv hk
    have hcolumn : u % p.first.tile < p.first.tile := Nat.mod_lt _ h.first_tile
    rw [hsome]
    exact .row hu hride (ColumnStage.outIndex_ok hroom hu hride)
      (ColumnStage.source_ok h.first_tile hle hroom hride) hcolumn hv hk
      (RowStage.outIndex_ok hslice hcolumn hv hk)
      (RowStage.source_ok h.second_tile hle' hslice hcolumn hk)

end Solid

/-- A second dimension and what is carried with it make a solid. -/
theorem solid_of_carrySecond {p : LineBufferPlan} {first second : LineBufferDimension}
    {depth : Nat} (h : carried.carrySecond first second depth = .ok p)
    (hcheck : checkDimensions 0 p.dimensions = .ok ()) (hfirst : 0 < first.tile ∧ 0 < first.window)
    (hsecond : 0 < second.tile ∧ 0 < second.window) : p.Solid second depth := by
  rcases carrySecond_ok h with ⟨rfl, hcarried⟩
  have hdvd : second.tile ∣ second.window := by
    rcases hcarried with ⟨_, hwhole, _⟩ | ⟨hsome, _⟩
    · exact dvd_of_eq hwhole
    · refine (checkDimensions_ok hcheck second ?_ hsecond.1).1
      rw [dimensions, hsome]
      exact List.mem_cons_of_mem _ (List.mem_singleton_self _)
  exact ⟨hfirst.1, hfirst.2, (checkDimensions_ok hcheck _ (List.mem_cons_self ..) hfirst.1).1,
    hsecond.1, hsecond.2, hdvd, hcarried⟩

/-- Carrying keeps the elements of all windows. -/
theorem exists_spot_carried {tile window image : List Nat} {first : LineBufferDimension}
    {left : List LineBufferDimension} {p : LineBufferPlan}
    (h : carried tile window image first left = .ok p)
    (hpos : ∀ d ∈ first :: left, 0 < d.tile ∧ 0 < d.window)
    (hcheck : checkDimensions 0 p.dimensions = .ok ()) :
    ∃ second depth after, p.Solid second depth ∧
      ∀ y, Inside ((first :: left).map (·.window)) y →
        ∃ u v k, Spot p second depth after (first :: left) y u v k := by
  have hfirst := hpos first (List.mem_cons_self ..)
  match left with
  | [] =>
      -- Nothing is left to carry: the solid is one row deep and one plane deep.
      rcases Except.ok.inj h with ⟨⟩
      have hdvd := (checkDimensions_ok hcheck first (List.mem_cons_self ..) hfirst.1).1
      refine ⟨⟨1, 1, 1⟩, 1, 0, ⟨hfirst.1, hfirst.2, hdvd, Nat.one_pos, Nat.one_pos,
        Nat.dvd_refl _, .inl ⟨rfl, rfl, rfl⟩⟩, fun y hy => ?_⟩
      rcases hy with _ | ⟨hu, _ | _⟩
      exact ⟨_, 0, 0, hu, Nat.one_pos, Nat.one_pos, rfl, rfl, by simp⟩
  | [second] =>
      have hsolid := solid_of_carrySecond h hcheck hfirst (hpos second (by simp))
      rcases carrySecond_ok h with ⟨rfl, _⟩
      refine ⟨second, 1, 1 - p.second.toList.length, hsolid, fun y hy => ?_⟩
      rcases hy with _ | ⟨hu, _ | ⟨hv, _ | _⟩⟩
      refine ⟨_, _, 0, hu, hv, Nat.one_pos, rfl, rfl, ?_⟩
      simp only [List.map_cons, List.map_nil, List.zipWith_cons_cons, List.zipWith_nil_left,
        hsolid.row_offset hv, List.cons_append]
  | [second, third] =>
      -- The third dimension is the depth of the solid, so it has to be passed whole.
      rw [carried] at h
      split at h
      · next hwhole =>
        have hsolid := solid_of_carrySecond h hcheck hfirst (hpos second (by simp))
        rcases carrySecond_ok h with ⟨rfl, _⟩
        rcases LineBufferDimension.isWhole_eq hwhole with ⟨htile, hwindow⟩
        refine ⟨second, third.tile, 1 - p.second.toList.length + 1, hsolid, fun y hy => ?_⟩
        rcases hy with _ | ⟨hu, _ | ⟨hv, _ | ⟨hk, _ | _⟩⟩⟩
        have hplane := Nat.lt_of_lt_of_eq hk (hwindow.trans htile.symm)
        refine ⟨_, _, _, hu, hv, hplane, rfl, ?_, ?_⟩
        · simp [number, Nat.mod_eq_of_lt hplane]
        · have hrow := hsolid.row_offset hv
          simp only [List.map_cons, List.map_nil, List.zipWith_cons_cons, List.zipWith_nil_left,
            Nat.div_eq_of_lt hplane, List.replicate_succ', ← List.append_assoc, List.cons_append]
          rw [← hrow]
          rfl
      · exact absurd h (by simp [unsupported])
  | _ :: _ :: _ :: _ => exact absurd h (by simp [carried, unsupported])

/-- The stages of a plan number the elements of windows and slices one-to-one, and find all of them
in tiles. From every element of a window they lead back to the tile its coordinates lie in, the
tiles counted from the oldest one, and to the element of that tile at the remaining coordinates.
The first `before` dimensions, which were folded, and the last `after` ones, which are carried,
have no tiles but one. -/
theorem origins {tile window image : List Nat} {p : LineBufferPlan}
    (h : ofShapes tile window image = .ok p) (htile : ∀ extent ∈ tile, 0 < extent)
    (hwindow : ∀ extent ∈ window, 0 < extent) (hroom : window.prod < Word.limit) :
    ∃ columns rows, p.columnStage = .ok columns ∧ p.rowStage = .ok rows ∧ columns.Numbered ∧
      (∀ s ∈ rows, s.Numbered) ∧ ∃ before after, ∀ x, Inside window x →
        ∃ flat position element, flatIndex window x = .ok flat ∧
          Leads columns rows flat position element ∧
          List.zipWith (· / ·) x tile
            = List.replicate before 0 ++ position ++ List.replicate after 0 ∧
          flatIndex tile (List.zipWith (· % ·) x tile) = .ok element := by
  have htiles := dimensionsOf_tile (ofShapes_ranks h)
  have hwindows := dimensionsOf_window (ofShapes_ranks h)
  have hvolume := ofShapes_window h
  rcases ofShapes_steps h with ⟨d, rest, first, left, hds, hfolded, hcarried, hcheck⟩
  rw [hds] at htiles hwindows
  have hpos : ∀ d' ∈ d :: rest, 0 < d'.tile ∧ 0 < d'.window := fun d' hd' =>
    ⟨htile _ (htiles ▸ List.mem_map_of_mem hd'), hwindow _ (hwindows ▸ List.mem_map_of_mem hd')⟩
  have hleft := folded_forall hfolded hpos fun _ _ _ hd hn =>
    ⟨Nat.mul_pos hn.1 hd.1, Nat.mul_pos hn.2 hd.2⟩
  rcases exists_sameElement_folded hfolded with ⟨before, hbefore⟩
  rcases exists_spot_carried hcarried hleft hcheck with ⟨second, depth, after, hsolid, hafter⟩
  rw [hsolid.windowVolume_eq] at hvolume
  rw [← hvolume] at hroom
  rcases hsolid.leads hroom with ⟨columns, rows, hcolumns, hrows, hnumbered, hnumbered', hleads⟩
  refine ⟨columns, rows, hcolumns, hrows, hnumbered, hnumbered', before, after, fun x hx => ?_⟩
  rcases hbefore x (hwindows ▸ hx) with ⟨y, hsame⟩
  rcases hafter y hsame.inside with ⟨u, v, k, hspot⟩
  have hflat := hsame.window.trans hspot.window
  have helement := hsame.element.trans hspot.element
  have hoffsets := hsame.offsets.trans (congrArg (_ ++ ·) hspot.offsets)
  rw [hwindows] at hflat
  rw [htiles] at helement hoffsets
  refine ⟨_, _, _, ?_, hleads u hspot.column v hspot.row k hspot.plane, ?_, ?_⟩
  · rw [← hflat]
    refine flatIndex_eq_number hwindow ?_
    rw [hflat]
    exact Nat.lt_trans (pair_lt hspot.column (pair_lt hspot.row hspot.plane)) hroom
  · rw [hoffsets, List.append_assoc]
  · -- A tile is no larger than a window, so its numbers are words as well.
    have htile_le := Nat.mul_le_mul (Nat.le_of_dvd hsolid.first_window hsolid.first_dvd)
      (Nat.mul_le_mul_right depth (Nat.le_of_dvd hsolid.second_window hsolid.second_dvd))
    have hlt : u % p.first.tile + p.first.tile * (v % second.tile + second.tile * k)
        < p.first.tile * (second.tile * depth) :=
      pair_lt (Nat.mod_lt _ hsolid.first_tile) (pair_lt (Nat.mod_lt _ hsolid.second_tile)
        hspot.plane)
    rw [← helement]
    refine flatIndex_eq_number htile ?_
    omega

/-- The first dimension of these tiles is passed whole. The element at `[1, 4, 1]` of a window, its
element 21, is element 1 of the last of three tiles along the second dimension, in the last row
of two along the third. -/
theorem origins_folded : ∃ p columns rows position before after,
    ofShapes [2, 2, 1] [2, 6, 2] [2, 8, 4] = .ok p ∧ p.columnStage = .ok columns ∧
      p.rowStage = .ok rows ∧ Leads columns rows 21 position 1 ∧
        [0, 2, 1] = List.replicate before 0 ++ position ++ List.replicate after 0 := by
  have hplan : ofShapes [2, 2, 1] [2, 6, 2] [2, 8, 4]
      = .ok ⟨⟨4, 12, 16⟩, some ⟨1, 2, 4⟩, 1⟩ := rfl
  rcases origins hplan (by decide) (by decide) (by decide) with
    ⟨columns, rows, hcolumns, hrows, _, _, before, after, horigin⟩
  have hinside : Inside [2, 6, 2] [1, 4, 1] :=
    .cons (by decide) (.cons (by decide) (.cons (by decide) .nil))
  rcases horigin _ hinside with ⟨flat, position, element, hflat, hleads, hoffsets, helement⟩
  have hnumber : flatIndex [2, 6, 2] [1, 4, 1] = .ok 21 := rfl
  rcases Except.ok.inj (hnumber.symm.trans hflat) with rfl
  rcases Except.ok.inj helement with rfl
  exact ⟨_, columns, rows, position, before, after, hplan, hcolumns, hrows, hleads, hoffsets⟩

end LineBufferPlan

end StencilRtl
