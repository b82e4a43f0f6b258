import StencilRtl.Proofs.LineBuffer.Columns
import StencilRtl.Proofs.LineBuffer.Plan
import StencilRtl.Proofs.LineBuffer.Rows

/-!
# From Tiles to Windows

What the stages of a plan make of images.

Both stages are known by what they make of the words they look at. Here these words are
blocks: the tiles of an image for the first stage, and for the column stage after a row
stage the slices that one makes. Blocks that touch are put together to a larger block,
`make_bricks` says that of either stage, and a frame of blocks becomes a frame of larger
blocks. The row stage looks at whole images, so its frame loses rows, while the column
stage looks at one row at a time and the rows get shorter.

A window is as many tiles wide as one more than are kept, so the rows and the places in a
row that are lost are just those from which no window fits. What is left is the frame of
the windows.

## Main definitions

* `LineBufferDimension.kept`: How many tiles a window needs besides the last one.
* `blocksOf`: The blocks of some images, one image after the other.
* `LineBufferPlan.slices`: The slices of a solid.

## Theorems

* `ColumnStage.outputs_bricks`, `RowStage.outputs_bricks`: A stage puts blocks together.
* `LineBufferPlan.Laid.fits_columns`, `LineBufferPlan.Laid.fits_rows`: The stages of a
  plan are made of whole tiles.
* `LineBufferPlan.Laid.outputs_images`: The row stage makes slices of tiles.
* `LineBufferPlan.Laid.outputs_slices_images`: The column stage makes windows of slices.
-/

namespace StencilRtl

/-- The blocks of the first `n` images of a sequence. -/
def blocksOf (bits : Nat) (extent : LineBufferDimension → Nat) (ds : List LineBufferDimension)
    (images : Nat → List Nat → Nat) (n : Nat) : List Nat :=
  (List.range n).flatMap fun k => blocks bits extent ds (images k)

/-- What is put out for the rows of a frame if each row is looked at on its own. -/
theorem Gather.outputs_rows {g : Gather} (hstride : g.stride = 1) (height : Nat)
    (f : Nat → Nat → Nat) :
    g.outputs (frame g.period height f) = frame (g.period - g.kept) height fun r c =>
      g.make ((List.range (g.kept + 1)).map fun q => f r (c + q)) := by
  have hrow : ∀ r, g.outputs ((List.range g.period).map (f r))
      = (List.range (g.period - g.kept)).map fun c =>
          g.make ((List.range (g.kept + 1)).map fun q => f r (c + q)) := by
    intro r
    have hframe := g.outputs_frame fun c _ => f r c
    rw [hstride, frame_one, frame_one] at hframe
    exact hframe
  have hlength : ∀ r, g.stride * g.period ∣ ((List.range g.period).map (f r)).length := by
    intro r
    rw [hstride, Nat.one_mul, List.length_map, List.length_range]
  rw [frame_eq_flatMap, outputs_flatMap hlength, frame_eq_flatMap]
  exact List.flatMap_congr fun r _ => hrow r

namespace ColumnStage

variable {s : ColumnStage} {kept bits n₁ n₂ : Nat}

/-- Neighbouring blocks are put together to a wider one. -/
theorem make_bricks (hfits : s.Fits kept) (hheight : s.height = n₁ * n₂)
    {f : Nat → Nat → Nat → Nat} (hf : ∀ x y k, f x y k < 2 ^ bits) :
    s.make bits ((List.range (kept + 1)).map fun q =>
        brick bits s.tile n₁ n₂ fun x y k => f (s.tile * q + x) y k)
      = brick bits s.window n₁ n₂ f := by
  rw [make, hheight]
  refine Eq.trans (brick_congr fun j hj r hr k _ => ?_) brick_regroup
  have htile := hfits.tile_lt hj
  have hcolumn : j % s.tile < s.tile := Nat.mod_lt _ hfits.tile_pos
  have hsplit : s.tile * (j / s.tile) + j % s.tile = j := Nat.div_add_mod j s.tile
  have hrows : 0 < n₁ := Nat.pos_of_mul_pos_right (Nat.lt_of_le_of_lt (Nat.zero_le _) hr)
  have hplace : j % s.tile + s.tile * r = j % s.tile + s.tile * (r % n₁ + n₁ * (r / n₁)) := by
    rw [Nat.mod_add_div]
  rw [getD_map_range _ htile, hplace, digit_brick (fun x y k => hf _ y k) hcolumn
    (Nat.mod_lt _ hrows) (Nat.div_lt_of_lt_mul hr), hsplit]

/-- A frame of blocks becomes a frame of wider ones. -/
theorem outputs_bricks (hfits : s.Fits kept) (hheight : s.height = n₁ * n₂)
    {f : Nat → Nat → Nat → Nat → Nat} (hf : ∀ r x y k, f r x y k < 2 ^ bits) (rows : Nat) :
    (s.gather bits kept).outputs (frame s.tilesPerRow rows fun r c =>
        brick bits s.tile n₁ n₂ fun x y k => f r (s.tile * c + x) y k)
      = frame (s.tilesPerRow - kept) rows fun r c =>
          brick bits s.window n₁ n₂ fun x y k => f r (s.tile * c + x) y k := by
  refine (Gather.outputs_rows (g := s.gather bits kept) rfl rows _).trans ?_
  refine congrArg (frame _ rows) (funext fun r => funext fun c => ?_)
  rw [← make_bricks hfits hheight fun x y k => hf r (s.tile * c + x) y k]
  simp only [Nat.mul_add, Nat.add_assoc]
  rfl

end ColumnStage

namespace RowStage

variable {s : RowStage} {kept bits : Nat}

/-- Blocks in one column are put together to a taller one. -/
theorem make_bricks (hfits : s.Fits kept) {f : Nat → Nat → Nat → Nat}
    (hf : ∀ x y k, f x y k < 2 ^ bits) :
    s.make bits ((List.range (kept + 1)).map fun q =>
        brick bits s.tile0 s.tile1 s.carry fun x y k => f x (s.tile1 * q + y) k)
      = brick bits s.tile0 s.window1 s.carry f := by
  rw [make]
  refine brick_congr fun i hi j hj k hk => ?_
  have hrow : j % s.tile1 < s.tile1 := Nat.mod_lt _ hfits.tile1_pos
  have hsplit : s.tile1 * (j / s.tile1) + j % s.tile1 = j := Nat.div_add_mod j s.tile1
  rw [getD_map_range _ (hfits.tile_lt hj), digit_brick (fun x y k => hf x _ k) hi hrow hk, hsplit]

/-- A frame of blocks becomes a frame of taller ones. -/
theorem outputs_bricks (hfits : s.Fits kept) {f : Nat → Nat → Nat → Nat → Nat}
    (hf : ∀ c x y k, f c x y k < 2 ^ bits) :
    (s.gather bits kept).outputs (frame s.tilesPerRow s.rows fun r c =>
        brick bits s.tile0 s.tile1 s.carry fun x y k => f c x (s.tile1 * r + y) k)
      = frame s.tilesPerRow (s.rows - kept) fun r c =>
          brick bits s.tile0 s.window1 s.carry fun x y k => f c x (s.tile1 * r + y) k := by
  refine (Gather.outputs_frame (g := s.gather bits kept) _).trans ?_
  refine congrArg (frame _ _) (funext fun r => funext fun c => ?_)
  rw [← make_bricks hfits fun x y k => hf c x (s.tile1 * r + y) k]
  simp only [Nat.mul_add, Nat.add_assoc]
  rfl

end RowStage

namespace LineBufferDimension

/-- How many tiles a window needs besides the last one. -/
def kept (d : LineBufferDimension) : Nat := d.window / d.tile - 1

variable {d : LineBufferDimension}

/-- The kept tiles and the last one make a window, and an image has more of them. -/
theorem kept_spec (htile : 0 < d.tile) (hwindow : 0 < d.window) (hdvd : d.tile ∣ d.window)
    (hfits : d.window ≤ d.image) :
    d.window = d.tile * (d.kept + 1) ∧ d.kept < d.image / d.tile ∧
      d.image / d.tile - d.window / d.tile + 1 = d.image / d.tile - d.kept := by
  have htiles : 0 < d.window / d.tile := Nat.div_pos (Nat.le_of_dvd hwindow hdvd) htile
  have hle : d.window / d.tile ≤ d.image / d.tile := Nat.div_le_div_right hfits
  have hwhole : d.tile * (d.window / d.tile) = d.window := Nat.mul_div_cancel' hdvd
  have hkept : d.kept + 1 = d.window / d.tile := by
    rw [kept]
    omega
  refine ⟨?_, by omega, by omega⟩
  rw [hkept, hwhole]

/-- A window of more than a tile needs some besides the last one. -/
theorem kept_pos (hwindow : d.window = d.tile * (d.kept + 1)) (hover : d.tile ≠ d.window) :
    0 < d.kept := by
  by_contra hnone
  rw [(by omega : d.kept = 0), Nat.zero_add, Nat.mul_one] at hwindow
  exact hover hwindow.symm

theorem Regular.kept_spec (h : d.Regular) (hdvd : d.tile ∣ d.window)
    (hfits : d.window ≤ d.image) :
    d.window = d.tile * (d.kept + 1) ∧ d.kept < d.image / d.tile ∧
      d.image / d.tile - d.window / d.tile + 1 = d.image / d.tile - d.kept :=
  LineBufferDimension.kept_spec h.tile_pos h.window_pos hdvd hfits

end LineBufferDimension

/-- The slices of a solid: blocks as wide as a tile and as tall as a window. -/
def LineBufferPlan.slices (p : LineBufferPlan) (bits : Nat) (second : LineBufferDimension)
    (depth : Nat) (px : Nat → Nat → Nat → Nat) : List Nat :=
  frame (p.first.image / p.first.tile) (second.image / second.tile - second.kept) fun r c =>
    brick bits p.first.tile second.window depth fun x y k =>
      px (p.first.tile * c + x) (second.tile * r + y) k

namespace LineBufferPlan.Laid

open LineBufferDimension

variable {p : LineBufferPlan} {ds : List LineBufferDimension} {second : LineBufferDimension}
  {depth : Nat} {read : (List Nat → Nat) → Nat → Nat → Nat → Nat}

/-- The row stage a plan comes to. -/
theorem rowStage_ok (h : p.Laid ds second depth read) {s : Option RowStage}
    (hs : p.rowStage = .ok s) : (s = none ∧ second.tile = second.window) ∨
      (second.tile ≠ second.window ∧ s = some ⟨p.first.tile, second.tile, second.window,
        p.first.image / p.first.tile, second.image / second.tile, depth⟩) := by
  have hfirst := Nat.ne_of_gt h.first_regular.tile_pos
  have hsecond := Nat.ne_of_gt h.second_regular.tile_pos
  rw [rowStage] at hs
  rcases h.carried with ⟨hnone, hwhole, _⟩ | ⟨hsome, hover, hcarry⟩
  · rw [hnone] at hs
    exact .inl ⟨(Except.ok.inj hs).symm, hwhole⟩
  · rw [hsome] at hs
    simp only [Word.div, if_neg hfirst, if_neg hsecond, hcarry] at hs
    exact .inr ⟨hover, (Except.ok.inj hs).symm⟩

/-- The column stage a plan comes to. -/
theorem columnStage_ok (h : p.Laid ds second depth read) {s : ColumnStage}
    (hs : p.columnStage = .ok s) : s = ⟨p.first.tile, p.first.window,
      p.first.image / p.first.tile, second.window * depth⟩ := by
  have hfirst := Nat.ne_of_gt h.first_regular.tile_pos
  rcases Fallible.bind_ok.mp hs with ⟨rows, hrows, hs⟩
  rcases h.rowStage_ok hrows with ⟨rfl, hwhole⟩ | ⟨_, rfl⟩
  · rcases Fallible.bind_ok.mp hs with ⟨height, hheight, hs⟩
    rcases Fallible.bind_ok.mp hs with ⟨tiles, htiles, hs⟩
    rw [Word.div, if_neg hfirst] at htiles
    rcases h.carried with ⟨_, _, hcarry⟩ | ⟨_, hover, _⟩
    · rw [← Except.ok.inj hs, ← Except.ok.inj htiles, ← Except.ok.inj hheight, hcarry, hwhole]
    · exact absurd hwhole hover
  · rcases Fallible.bind_ok.mp hs with ⟨height, hheight, hs⟩
    rcases Fallible.bind_ok.mp hs with ⟨tiles, htiles, hs⟩
    rw [Word.div, if_neg hfirst] at htiles
    rw [← Except.ok.inj hs, ← Except.ok.inj htiles, ← (Word.mul_eq_ok.mp hheight).2]

/-- The column stage is made of whole tiles. -/
theorem fits_columns (h : p.Laid ds second depth read) {s : ColumnStage}
    (hs : p.columnStage = .ok s) : s.Fits p.first.kept := by
  rcases h.columnStage_ok hs with rfl
  have hkept := h.first_regular.kept_spec h.first_dvd h.first_fits
  exact ⟨h.first_regular.tile_pos, hkept.1, hkept.2.1⟩

/-- So is the row stage. -/
theorem fits_rows (h : p.Laid ds second depth read) {s : RowStage}
    (hs : p.rowStage = .ok (some s)) : s.Fits second.kept := by
  rcases h.rowStage_ok hs with ⟨hnone, _⟩ | ⟨hover, hsome⟩
  · exact absurd hnone (by simp)
  · rcases Option.some.inj hsome with rfl
    have hfirst := h.first_regular.kept_spec h.first_dvd h.first_fits
    have hkept := h.second_regular.kept_spec h.second_dvd h.second_fits
    exact ⟨h.first_regular.tile_pos, h.second_regular.tile_pos, hkept.1,
      Nat.lt_of_le_of_lt (Nat.zero_le _) hfirst.2.1,
      LineBufferDimension.kept_pos hkept.1 hover, hkept.2.1⟩

/-- The tiles of an image are a frame of blocks. -/
theorem tiles_eq_frame (h : p.Laid ds second depth read) (bits : Nat) (image : List Nat → Nat) :
    blocks bits (·.tile) ds image
      = frame (p.first.image / p.first.tile) (second.image / second.tile) fun r c =>
          brick bits p.first.tile second.tile depth fun x y k =>
            read image (p.first.tile * c + x) (second.tile * r + y) k := by
  have hone : ∀ d : LineBufferDimension, d.Regular →
      d.image / d.tile - d.tile / d.tile + 1 = d.image / d.tile := by
    intro d hd
    have htiles : 0 < d.image / d.tile := Nat.div_pos hd.tile_le hd.tile_pos
    rw [Nat.div_self hd.tile_pos]
    omega
  rw [h.tiles, solid_eq_frame h.first_regular h.second_regular ?_, hone _ h.first_regular,
    hone _ h.second_regular]
  intro d hd
  rcases List.mem_pair.mp hd with rfl | rfl
  · exact ⟨Nat.dvd_refl _, h.first_regular.tile_pos, h.first_regular.tile_le⟩
  · exact ⟨Nat.dvd_refl _, h.second_regular.tile_pos, h.second_regular.tile_le⟩

/-- So are its windows. -/
theorem windows_eq_frame (h : p.Laid ds second depth read) (bits : Nat) (image : List Nat → Nat) :
    blocks bits (·.window) ds image
      = frame (p.first.image / p.first.tile - p.first.kept)
          (second.image / second.tile - second.kept) fun r c =>
            brick bits p.first.window second.window depth fun x y k =>
              read image (p.first.tile * c + x) (second.tile * r + y) k := by
  rw [h.windows, solid_eq_frame h.first_regular h.second_regular ?_,
    (h.first_regular.kept_spec h.first_dvd h.first_fits).2.2,
    (h.second_regular.kept_spec h.second_dvd h.second_fits).2.2]
  intro d hd
  rcases List.mem_pair.mp hd with rfl | rfl
  · exact ⟨h.first_dvd, h.first_regular.window_pos, h.first_fits⟩
  · exact ⟨h.second_dvd, h.second_regular.window_pos, h.second_fits⟩

section

variable {bits : Nat} {columns : ColumnStage} {rows : RowStage} {image : List Nat → Nat}

/-- The row stage makes slices of tiles. -/
theorem outputs_tiles (h : p.Laid ds second depth read) (hrows : p.rowStage = .ok (some rows))
    (himage : ∀ q, image q < 2 ^ bits) :
    (rows.gather bits second.kept).outputs (blocks bits (·.tile) ds image)
      = p.slices bits second depth (read image) := by
  have hfits := h.fits_rows hrows
  rcases h.rowStage_ok hrows with ⟨hnone, _⟩ | ⟨_, hsome⟩
  · exact absurd hnone (by simp)
  · rcases Option.some.inj hsome with rfl
    rw [h.tiles_eq_frame]
    exact RowStage.outputs_bricks hfits (f := fun c x y k => read image (p.first.tile * c + x) y k)
      (fun c x y k => h.read_lt _ _ himage _ _ _)

/-- Without a row stage the tiles are slices already. -/
theorem slices_eq_tiles (h : p.Laid ds second depth read) (hrows : p.rowStage = .ok none) :
    p.slices bits second depth (read image) = blocks bits (·.tile) ds image := by
  have hwhole : second.tile = second.window := by
    rcases h.rowStage_ok hrows with ⟨_, hwhole⟩ | ⟨_, hsome⟩
    · exact hwhole
    · exact absurd hsome (by simp)
  have hkept : second.kept = 0 := by
    rw [kept, ← hwhole, Nat.div_self h.second_regular.tile_pos]
  rw [h.tiles_eq_frame, slices, hkept, Nat.sub_zero, ← hwhole]

/-- The column stage makes windows of slices. -/
theorem outputs_slices (h : p.Laid ds second depth read) (hcolumns : p.columnStage = .ok columns)
    (himage : ∀ q, image q < 2 ^ bits) :
    (columns.gather bits p.first.kept).outputs (p.slices bits second depth (read image))
      = blocks bits (·.window) ds image := by
  have hfits := h.fits_columns hcolumns
  rcases h.columnStage_ok hcolumns with rfl
  rw [h.windows_eq_frame]
  exact ColumnStage.outputs_bricks hfits rfl
    (f := fun r x y k => read image x (second.tile * r + y) k)
    (fun r x y k => h.read_lt _ _ himage _ _ _) _

variable {images : Nat → List Nat → Nat}

/-- The row stage makes the slices of one image after the other. -/
theorem outputs_images (h : p.Laid ds second depth read) (hrows : p.rowStage = .ok (some rows))
    (himages : ∀ k q, images k q < 2 ^ bits) (n : Nat) :
    (rows.gather bits second.kept).outputs (blocksOf bits (·.tile) ds images n)
      = (List.range n).flatMap fun k => p.slices bits second depth (read (images k)) := by
  have hperiod : rows.tilesPerRow * rows.rows
      = p.first.image / p.first.tile * (second.image / second.tile) := by
    rcases h.rowStage_ok hrows with ⟨hnone, _⟩ | ⟨_, hsome⟩
    · exact absurd hnone (by simp)
    · rcases Option.some.inj hsome with rfl
      rfl
  rw [blocksOf, Gather.outputs_flatMap]
  · exact List.flatMap_congr fun k _ => h.outputs_tiles hrows (himages k)
  · intro k
    rw [h.tiles_eq_frame, length_frame]
    exact dvd_of_eq hperiod

/-- The column stage makes their windows. -/
theorem outputs_slices_images (h : p.Laid ds second depth read)
    (hcolumns : p.columnStage = .ok columns) (himages : ∀ k q, images k q < 2 ^ bits) (n : Nat) :
    (columns.gather bits p.first.kept).outputs
        ((List.range n).flatMap fun k => p.slices bits second depth (read (images k)))
      = blocksOf bits (·.window) ds images n := by
  have hperiod : columns.tilesPerRow = p.first.image / p.first.tile := by
    rcases h.columnStage_ok hcolumns with rfl
    rfl
  rw [Gather.outputs_flatMap]
  · exact List.flatMap_congr fun k _ => h.outputs_slices hcolumns (himages k)
  · intro k
    rw [slices, length_frame]
    refine Dvd.dvd.mul_right ?_ _
    rw [ColumnStage.gather, Nat.one_mul, hperiod]

end

end LineBufferPlan.Laid

end StencilRtl
