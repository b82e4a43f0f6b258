import StencilRtl.Geometry.LineBuffer
import StencilRtl.Proofs.LineBuffer.Gather

/-!
# Tiles and Windows of an Image

Which tiles an image is sent as, and which windows of it are wanted.

An image gives an element for each tuple of coordinates. Its tiles and its windows are
blocks of it: they differ in their extents only, and both begin at the multiples of the
tile from which they still fit. So both are `blocks`, which is given the extents as a
function of the dimension, and what a plan does to the dimensions has to be followed
only once. Everything is listed with dimension 0 fastest, the blocks of an image as well
as the elements of a block.

Folding a dimension that is passed whole into the next one changes neither list, if the
image is read accordingly; this is `blocks_merge`. Images of one, two and three
dimensions, the third passed whole, all come down to a `solid`, and the last theorems
here say what the rows of its tiles and windows are.

## Main definitions

* `LineBufferDimension.Regular`: Extents are positive and tiles fill the image.
* `LineBufferDimension.origins`: Where blocks begin in one dimension.
* `block`, `blocks`: One block of an image, and all of them.
* `merge`: An image whose first two coordinates are counted as one.
* `solid`: The blocks of an image with three dimensions, the third passed whole.

## Theorems

* `blocks_merge`: A dimension passed whole can be folded into the next one.
* `blocks_one`, `blocks_two`, `blocks_three`: Blocks of images with few dimensions.
* `solid_eq_frame`: The blocks of a solid, row after row.
-/

namespace StencilRtl

namespace LineBufferDimension

/-- Extents are positive and the image consists of whole tiles. -/
structure Regular (d : LineBufferDimension) : Prop where
  tile_pos : 0 < d.tile
  window_pos : 0 < d.window
  image_pos : 0 < d.image
  tile_dvd : d.tile ∣ d.image

instance (d : LineBufferDimension) : Decidable d.Regular :=
  decidable_of_iff (0 < d.tile ∧ 0 < d.window ∧ 0 < d.image ∧ d.tile ∣ d.image)
    ⟨fun h => ⟨h.1, h.2.1, h.2.2.1, h.2.2.2⟩,
      fun h => ⟨h.tile_pos, h.window_pos, h.image_pos, h.tile_dvd⟩⟩

/-- Where blocks of some extent begin: at the multiples of the tile from which they
    fit. -/
def origins (d : LineBufferDimension) (extent : Nat) : List Nat :=
  (List.range (d.image + 1 - extent)).filter fun x => d.tile ∣ x

end LineBufferDimension

/-- The block of an image that begins at `origin`, as a word. -/
def block (bits : Nat) (extents : List Nat) (image : List Nat → Nat) (origin : List Nat) : Nat :=
  Nat.ofDigits (2 ^ bits) ((rowMajor (extents.map List.range)).map fun offset =>
    image (List.zipWith (· + ·) origin offset))

/-- All blocks of an image, the extents being given for each dimension. -/
def blocks (bits : Nat) (extent : LineBufferDimension → Nat) (ds : List LineBufferDimension)
    (image : List Nat → Nat) : List Nat :=
  (rowMajor (ds.map fun d => d.origins (extent d))).map (block bits (ds.map extent) image)

/-- The image with its first two coordinates counted as one, `extent` being the extent
    of the first. -/
def merge (extent : Nat) (image : List Nat → Nat) : List Nat → Nat
  | [] => image []
  | x :: rest => image (x % extent :: x / extent :: rest)

theorem merge_lt {extent bound : Nat} {image : List Nat → Nat} (h : ∀ p, image p < bound) :
    ∀ p, merge extent image p < bound := by
  intro p
  cases p with
  | nil => exact h _
  | cons x rest => exact h _

/-- The multiples of a number, up to one of them. -/
theorem filter_dvd_range {t : Nat} (ht : 0 < t) (n : Nat) :
    ((List.range (t * n + 1)).filter fun x => t ∣ x) = (List.range (n + 1)).map (t * ·) := by
  induction n with
  | zero => simp
  | succ n ih =>
      -- Between two multiples in a row there is none.
      have hbetween : ((List.range (t - 1)).map fun x => t * n + 1 + x).filter
          (fun x => decide (t ∣ x)) = [] := by
        refine List.filter_eq_nil_iff.mpr fun x hx => ?_
        rcases List.mem_map.mp hx with ⟨y, hy, rfl⟩
        have hy : y < t - 1 := List.mem_range.mp hy
        have hdvd : ¬t ∣ t * n + 1 + y := by
          rw [Nat.add_assoc, Nat.dvd_add_right (Nat.dvd_mul_right t n)]
          exact Nat.not_dvd_of_pos_of_lt (by omega) (by omega)
        simpa using hdvd
      have hsplit : t * (n + 1) + 1 = t * n + 1 + (t - 1) + 1 := by
        rw [Nat.mul_succ]
        omega
      have hlast : t * n + 1 + (t - 1) = t * (n + 1) := by
        rw [Nat.mul_succ]
        omega
      rw [hsplit, List.range_succ, List.range_add, List.filter_append, List.filter_append, ih,
        hbetween, hlast, List.append_nil, List.range_succ (n := n + 1), List.map_append]
      simp

namespace LineBufferDimension

variable {d n : LineBufferDimension}

/-- Where blocks of whole tiles begin. -/
theorem origins_eq (h : d.Regular) {extent : Nat} (hextent : d.tile ∣ extent)
    (hfits : extent ≤ d.image) :
    d.origins extent
      = (List.range (d.image / d.tile - extent / d.tile + 1)).map (d.tile * ·) := by
  rcases h.tile_dvd with ⟨m, hm⟩
  rcases hextent with ⟨k, hk⟩
  have hle : k ≤ m := by
    rw [hm, hk] at hfits
    exact Nat.le_of_mul_le_mul_left hfits h.tile_pos
  have hroom : d.image + 1 - extent = d.tile * (m - k) + 1 := by
    rw [Nat.mul_sub, ← hm, ← hk]
    omega
  rw [origins, hroom, filter_dvd_range h.tile_pos, hm, hk, Nat.mul_div_cancel_left _ h.tile_pos,
    Nat.mul_div_cancel_left _ h.tile_pos]

/-- A block that fills a dimension begins at its beginning. -/
theorem origins_whole (d : LineBufferDimension) : d.origins d.image = [0] := by
  rw [origins, Nat.add_sub_cancel_left, List.range_one]
  simp

/-- Where blocks begin after a whole dimension of extent `e` has been folded in. -/
theorem origins_scaled {e extent : Nat} (he : 0 < e) (hfits : extent ≤ n.image) :
    (⟨n.tile * e, n.window * e, n.image * e⟩ : LineBufferDimension).origins (extent * e)
      = (n.origins extent).map (e * ·) := by
  have hroom : n.image * e + 1 - extent * e = e * (n.image - extent) + 1 := by
    rw [Nat.mul_sub, Nat.mul_comm e, Nat.mul_comm e]
    have hle : extent * e ≤ n.image * e := Nat.mul_le_mul_right _ hfits
    omega
  -- Where a block begins is a multiple of `e`, since its tile is.
  have hfilter : ∀ l : List Nat, (l.filter fun x => n.tile * e ∣ x)
      = (l.filter fun x => e ∣ x).filter fun x => n.tile * e ∣ x := by
    intro l
    rw [List.filter_filter]
    refine List.filter_congr fun x _ => ?_
    by_cases h : n.tile * e ∣ x
    · simp only [h, Nat.dvd_trans (Nat.dvd_mul_left e n.tile) h, decide_true, Bool.and_self]
    · simp only [h, decide_false, Bool.false_and]
  have hscaled : ∀ x, decide (n.tile * e ∣ e * x) = decide (n.tile ∣ x) := by
    intro x
    rw [decide_eq_decide, Nat.mul_comm]
    exact Nat.mul_dvd_mul_iff_left he
  rw [origins, hroom, hfilter, filter_dvd_range he, List.filter_map, origins,
    (by omega : n.image + 1 - extent = n.image - extent + 1)]
  exact congrArg _ (List.filter_congr fun x _ => hscaled x)

end LineBufferDimension

/-- A block whose first dimension is filled is the block of the merged image. -/
theorem block_merge {e : Nat} (extent bits : Nat) (rest : List Nat)
    (image : List Nat → Nat) (y : Nat) (origin : List Nat) :
    block bits (e :: extent :: rest) image (0 :: y :: origin)
      = block bits (extent * e :: rest) (merge e image) (e * y :: origin) := by
  refine congrArg (Nat.ofDigits (2 ^ bits)) ?_
  rw [List.map_cons, List.map_cons, List.map_cons, rowMajor_cons_cons, rowMajor,
    List.map_flatMap, List.map_flatMap]
  refine List.flatMap_congr fun p _ => ?_
  rw [List.map_map, Nat.mul_comm extent, ← flatMap_range_map, List.map_flatMap]
  refine List.flatMap_congr fun v _ => ?_
  rw [List.map_map]
  refine List.map_congr_left fun u hu => ?_
  have hplace : e * y + (u + e * v) = u + e * (y + v) := by
    rw [Nat.mul_add]
    omega
  have hpair := pair_mod_div (List.mem_range.mp hu) (y + v)
  simp only [Function.comp_apply, List.zipWith_cons_cons, merge, hplace, hpair.1, hpair.2,
    Nat.zero_add]

/-- A dimension that is passed whole can be folded into the next one. -/
theorem blocks_merge {extent : LineBufferDimension → Nat} {d n : LineBufferDimension}
    (hpos : 0 < d.image) (hd : extent d = d.image) (hfits : extent n ≤ n.image)
    (hmerged : extent ⟨n.tile * d.image, n.window * d.image, n.image * d.image⟩
      = extent n * d.image)
    (bits : Nat) (rest : List LineBufferDimension) (image : List Nat → Nat) :
    blocks bits extent (d :: n :: rest) image
      = blocks bits extent (⟨n.tile * d.image, n.window * d.image, n.image * d.image⟩ :: rest)
          (merge d.image image) := by
  simp only [blocks, List.map_cons, hd, hmerged, LineBufferDimension.origins_whole,
    LineBufferDimension.origins_scaled hpos hfits, rowMajor_cons_cons, rowMajor,
    List.map_flatMap, List.map_map, List.map_nil]
  refine List.flatMap_congr fun p _ => ?_
  refine (List.flatMap_congr fun y _ => ?_).trans (List.map_eq_flatMap ..).symm
  rw [block_merge]
  rfl

/-- The blocks of an image with three dimensions, the third of which is passed whole. -/
def solid (bits : Nat) (extent : LineBufferDimension → Nat) (first second : LineBufferDimension)
    (depth : Nat) (px : Nat → Nat → Nat → Nat) : List Nat :=
  (second.origins (extent second)).flatMap fun b => (first.origins (extent first)).map fun a =>
    brick bits (extent first) (extent second) depth fun x y k => px (a + x) (b + y) k

section

variable {extent : LineBufferDimension → Nat} {bits : Nat}
  {first second third : LineBufferDimension}

theorem blocks_three (hthird : extent third = third.image) (image : List Nat → Nat) :
    blocks bits extent [first, second, third] image
      = solid bits extent first second third.image fun x y k => image [x, y, k] := by
  simp only [blocks, solid, List.map_cons, List.map_nil, hthird,
    LineBufferDimension.origins_whole, rowMajor_cons_cons, rowMajor, List.flatMap_cons,
    List.flatMap_nil, List.append_nil, List.map_flatMap, List.map_map]
  refine List.flatMap_congr fun b _ => List.map_congr_left fun a _ => ?_
  rw [Function.comp_apply, block, brick]
  simp only [List.map_cons, List.map_nil, rowMajor_cons_cons, rowMajor, List.flatMap_cons,
    List.flatMap_nil, List.append_nil, List.map_flatMap, List.map_map, List.flatMap_map]
  refine congrArg _ (List.flatMap_congr fun k _ => List.flatMap_congr fun y _ =>
    List.map_congr_left fun x _ => ?_)
  simp only [Function.comp_apply, List.zipWith_cons_cons, List.zipWith_nil_left, Nat.zero_add]

theorem blocks_two (image : List Nat → Nat) :
    blocks bits extent [first, second] image
      = solid bits extent first second 1 fun x y _ => image [x, y] := by
  simp only [blocks, solid, List.map_cons, List.map_nil, rowMajor_cons_cons, rowMajor,
    List.flatMap_cons, List.flatMap_nil, List.append_nil, List.map_flatMap, List.map_map]
  refine List.flatMap_congr fun b _ => List.map_congr_left fun a _ => ?_
  rw [Function.comp_apply, block, brick, List.range_one, List.flatMap_singleton]
  simp only [List.map_cons, List.map_nil, rowMajor_cons_cons, rowMajor, List.flatMap_cons,
    List.flatMap_nil, List.append_nil, List.map_flatMap, List.map_map]
  refine congrArg _ (List.flatMap_congr fun y _ => List.map_congr_left fun x _ => ?_)
  simp only [Function.comp_apply, List.zipWith_cons_cons, List.zipWith_nil_left]

theorem blocks_one (hsecond : extent ⟨1, 1, 1⟩ = 1) (image : List Nat → Nat) :
    blocks bits extent [first] image
      = solid bits extent first ⟨1, 1, 1⟩ 1 fun x _ _ => image [x] := by
  have hone : (⟨1, 1, 1⟩ : LineBufferDimension).origins 1 = [0] :=
    LineBufferDimension.origins_whole ⟨1, 1, 1⟩
  simp only [blocks, solid, List.map_cons, List.map_nil, hsecond, hone, rowMajor,
    List.flatMap_cons, List.flatMap_nil, List.append_nil, List.map_map]
  refine List.map_congr_left fun a _ => ?_
  rw [Function.comp_apply, block, brick, List.range_one, List.flatMap_singleton,
    List.flatMap_singleton]
  simp only [List.map_cons, List.map_nil, rowMajor, List.flatMap_cons, List.flatMap_nil,
    List.append_nil, List.map_map]
  refine congrArg _ (List.map_congr_left fun x _ => ?_)
  simp only [Function.comp_apply, List.zipWith_cons_cons, List.zipWith_nil_left]

/-- The blocks of a solid, row after row. -/
theorem solid_eq_frame (hfirst : first.Regular) (hsecond : second.Regular)
    (hextent : ∀ d ∈ [first, second], d.tile ∣ extent d ∧ 0 < extent d ∧ extent d ≤ d.image)
    (depth : Nat) (px : Nat → Nat → Nat → Nat) :
    solid bits extent first second depth px
      = frame (first.image / first.tile - extent first / first.tile + 1)
          (second.image / second.tile - extent second / second.tile + 1) fun r c =>
            brick bits (extent first) (extent second) depth fun x y k =>
              px (first.tile * c + x) (second.tile * r + y) k := by
  rcases hextent first (by simp) with ⟨hdvd, _, hfits⟩
  rcases hextent second (by simp) with ⟨hdvd', _, hfits'⟩
  rw [solid, LineBufferDimension.origins_eq hfirst hdvd hfits,
    LineBufferDimension.origins_eq hsecond hdvd' hfits', frame_eq_flatMap, List.flatMap_map]
  refine List.flatMap_congr fun r _ => ?_
  rw [List.map_map]
  rfl

end

end StencilRtl
