import StencilRtl.Proofs.Answers.Blocks
import StencilRtl.Proofs.LineBuffer.Origins
import StencilRtl.Proofs.LineBuffer.Stages

/-!
# Line Buffers That Answer

The modules of a line buffer can be made.

The sizes in a plan are products of the sizes it was made for, so none of them is larger than a
tile, a window or an image, and those are words. The check that a plan ends with lets only those
pass that are made of whole tiles, and everything that is subtracted or divided later on relies
on that. Where an element lies in a tile or a slice is told in bits, and as those are parts of a
window their places are words as well.

A row stage reads all the rows it keeps in every turn. As many statements have to be a word, and
they are since no more rows are kept than a window has elements.

## Main definitions

* `FitsWord`: A word can count the elements of a box.
* `LineBufferPlan.Whole`: A plan is made of whole tiles.

## Theorems

* `LineBufferPlan.answers_ofShapes`: Planning answers.
* `ColumnStage.Fits.answers_body`, `RowStage.Fits.answers_body`: The logic of the stages.
* `LineBuffer.answers_make`: Making the modules of a line buffer.
-/

namespace StencilRtl

open Fallible Rtl

/-- A box is not empty, and a word can count its elements. -/
structure FitsWord (sizes : List Nat) : Prop where
  pos : ∀ n ∈ sizes, 0 < n
  lt : sizes.prod < Word.limit

/-- Two sizes of a box may be taken together. -/
theorem FitsWord.fold {a b : Nat} {rest : List Nat} (h : FitsWord (a :: b :: rest)) :
    Word.mul b a = .ok (b * a) ∧ FitsWord (b * a :: rest) := by
  have hpos := h.pos
  simp only [List.forall_mem_cons] at hpos
  have hprod : (b * a :: rest).prod < Word.limit := by
    have hlt := h.lt
    rw [List.prod_cons, List.prod_cons, ← Nat.mul_assoc, Nat.mul_comm a] at hlt
    rwa [List.prod_cons]
  have hrest : 0 < rest.prod := List.prod_pos_iff_forall_pos_nat.mpr hpos.2.2
  have hle : b * a ≤ b * a * rest.prod := Nat.le_mul_of_pos_right _ hrest
  rw [List.prod_cons] at hprod
  exact ⟨Word.mul_eq_ok.mpr ⟨Nat.lt_of_le_of_lt hle hprod, rfl⟩,
    List.forall_mem_cons.mpr ⟨Nat.mul_pos hpos.2.1 hpos.1, hpos.2.2⟩, by rwa [List.prod_cons]⟩

/-- What is left of a box without its first dimension. -/
theorem FitsWord.tail {a : Nat} {rest : List Nat} (h : FitsWord (a :: rest)) : FitsWord rest := by
  have hpos := List.forall_mem_cons.mp h.pos
  have hlt := h.lt
  rw [List.prod_cons] at hlt
  exact ⟨hpos.2, Nat.lt_of_le_of_lt (Nat.le_mul_of_pos_left _ hpos.1) hlt⟩

namespace LineBufferPlan

/-- Tiles, windows and images of dimensions that can be counted. -/
structure Planned (ds : List LineBufferDimension) : Prop where
  tile : FitsWord (ds.map (·.tile))
  window : FitsWord (ds.map (·.window))
  image : FitsWord (ds.map (·.image))

/-- A plan is made of whole tiles, and it carries something. -/
structure Whole (p : LineBufferPlan) : Prop where
  tile_pos : ∀ d ∈ p.dimensions, 0 < d.tile
  window_pos : ∀ d ∈ p.dimensions, 0 < d.window
  tile_dvd : ∀ d ∈ p.dimensions, d.tile ∣ d.window
  fits : ∀ d ∈ p.dimensions, d.window ≤ d.image
  overlaps : ∀ d ∈ p.second, d.tile ≠ d.window
  carry_pos : 0 < p.carry

theorem answers_folded {rest : List LineBufferDimension} {d : LineBufferDimension}
    (h : Planned (d :: rest)) : Answers (folded d rest) fun r => Planned (r.1 :: r.2) := by
  induction rest generalizing d with
  | nil => exact h
  | cons next rest ih =>
      rw [folded]
      split
      · have htile := h.tile.fold
        have hwindow := h.window.fold
        have himage := h.image.fold
        exact .bind_of_ok htile.1 (.bind_of_ok hwindow.1 (.bind_of_ok himage.1
          (ih ⟨htile.2, hwindow.2, himage.2⟩)))
      · exact h

theorem answers_carried {tile window image : List Nat} {first : LineBufferDimension}
    {rest : List LineBufferDimension} (h : Planned (first :: rest)) :
    Answers (carried tile window image first rest) fun p =>
      (∀ d ∈ p.dimensions, d ∈ first :: rest) ∧ (∀ d ∈ p.second, d.tile ≠ d.window) ∧
        0 < p.carry := by
  -- The second dimension is carried along if its tiles are whole windows, whatever is below.
  have hsecond : ∀ (second : LineBufferDimension) (carry : Nat), second ∈ rest → 0 < carry →
      Word.mul carry second.tile = .ok (carry * second.tile) →
      Answers (carried.carrySecond first second carry) fun p =>
        (∀ d ∈ p.dimensions, d ∈ first :: rest) ∧ (∀ d ∈ p.second, d.tile ≠ d.window) ∧
          0 < p.carry := by
    intro second carry hmem hcarry hmul
    have htile := h.tile.pos _ (List.mem_map_of_mem (List.mem_cons_of_mem first hmem))
    unfold carried.carrySecond
    split
    · refine .bind_of_ok hmul ⟨fun d hd => ?_, fun _ hnone => absurd hnone (by simp),
        Nat.mul_pos hcarry htile⟩
      exact List.mem_singleton.mp hd ▸ List.mem_cons_self ..
    · next hover =>
      refine ⟨fun d hd => ?_, fun d hd => Option.some.inj hd ▸ hover, hcarry⟩
      rcases List.mem_pair.mp hd with rfl | rfl
      · exact List.mem_cons_self ..
      · exact List.mem_cons_of_mem _ hmem
  -- More than three dimensions are refused.
  match rest with
  | [] => exact ⟨fun d hd => hd, fun _ hnone => absurd hnone (by simp), Nat.one_pos⟩
  | [second] =>
      have hlt := lt_of_mem_extents h.tile.pos h.tile.lt second.tile (by simp)
      exact hsecond second 1 (by simp) Nat.one_pos (Word.mul_eq_ok.mpr ⟨by omega, rfl⟩)
  | [second, third] =>
      rw [carried]
      split
      · exact hsecond second third.tile (by simp) (h.tile.pos _ (by simp)) h.tile.tail.fold.1
      · trivial
  | _ :: _ :: _ :: _ => trivial

theorem answers_checkDimensions {ds : List LineBufferDimension} (h : ∀ d ∈ ds, 0 < d.tile)
    (number : Nat) : Answers (checkDimensions number ds) fun _ => True := by
  induction ds generalizing number with
  | nil => trivial
  | cons d rest ih =>
      rw [List.forall_mem_cons] at h
      -- A tile has an extent, so that nothing is divided by zero.
      have hmod : ∀ n, Word.mod n d.tile = .ok (n % d.tile) := fun n =>
        if_neg (Nat.ne_of_gt h.1)
      refine .bind_of_ok (hmod _) ?_
      split
      · trivial
      refine .bind_of_ok (hmod _) ?_
      split
      · trivial
      split
      · trivial
      · exact ih h.2 _

theorem dimensionsOf_image {tile window image : List Nat}
    (hranks : tile.length = window.length ∧ tile.length = image.length) :
    (dimensionsOf tile window image).map (·.image) = image := by
  have hzip : (dimensionsOf tile window image).map (·.image)
      = ((tile.zip (window.zip image)).map Prod.snd).map Prod.snd := by
    rw [dimensionsOf, List.map_map, List.map_map]
    rfl
  rw [hzip, List.map_snd_zip, List.map_snd_zip]
  · omega
  · rw [List.length_zip]
    omega

/-- Shapes of words are refused or planned. -/
theorem answers_ofShapes {tile window image : List Nat} (htile : FitsWord tile)
    (hwindow : FitsWord window) (himage : FitsWord image) :
    Answers (ofShapes tile window image) Whole := by
  unfold ofShapes
  split
  · trivial
  next hranks =>
  split
  · trivial
  rw [not_or, not_not, not_not] at hranks
  -- From here on the three lists are one list of dimensions.
  have hplanned : Planned (dimensionsOf tile window image) := by
    refine ⟨?_, ?_, ?_⟩
    · rwa [dimensionsOf_tile hranks]
    · rwa [dimensionsOf_window hranks]
    · rwa [dimensionsOf_image hranks]
  split
  · trivial
  next d rest hds =>
  rw [hds] at hplanned
  refine (answers_folded hplanned).bind fun ⟨first, left⟩ hfolded =>
    (answers_carried hfolded).bind fun p ⟨hdimensions, hoverlaps, hcarry⟩ => ?_
  have htiles : ∀ d ∈ p.dimensions, 0 < d.tile := fun d hd =>
    hfolded.tile.pos _ (List.mem_map_of_mem (hdimensions d hd))
  refine (answers_checkDimensions htiles 0).bind_ok fun _ hcheck _ => ?_
  have hchecked := fun d hd => checkDimensions_ok hcheck d hd (htiles d hd)
  exact ⟨htiles, fun d hd => hfolded.window.pos _ (List.mem_map_of_mem (hdimensions d hd)),
    fun d hd => (hchecked d hd).1, fun d hd => (hchecked d hd).2, hoverlaps,
    hcarry⟩

end LineBufferPlan

/-- An element within a word of bits that can be counted. -/
theorem answers_elementOf {signal : String} {element width elems : Nat} (helement : element < elems)
    (hroom : elems * width < Word.limit) :
    Answers (elementOf signal element width) fun _ => True := by
  have hle : element * width ≤ elems * width := Nat.mul_le_mul_right _ (Nat.le_of_lt helement)
  exact .bind_of_ok (Word.mul_eq_ok.mpr ⟨Nat.lt_of_le_of_lt hle hroom, rfl⟩) trivial

namespace ColumnStage

variable {s : ColumnStage} {kept bits : Nat}

theorem Fits.tile_le (hfits : s.Fits kept) : s.tile ≤ s.window := by
  rw [hfits.window_eq]
  exact Nat.le_mul_of_pos_right _ (Nat.succ_pos _)

theorem Fits.buffers_eq (hfits : s.Fits kept) : s.buffers = .ok kept := by
  have hdiv : Word.div s.window s.tile = .ok (kept + 1) := by
    rw [Word.div, if_neg (Nat.ne_of_gt hfits.tile_pos), hfits.window_eq,
      Nat.mul_div_cancel_left _ hfits.tile_pos]
  exact Fallible.bind_ok.mpr ⟨_, hdiv, Word.sub_eq_ok.mpr ⟨Nat.succ_pos _, rfl⟩⟩

section

variable (hfits : s.Fits kept) (hbits : 0 < bits) (hroom : s.window * s.height * bits < Word.limit)

include hfits hbits hroom

/-- A tile is a part of a window. -/
theorem tile_room : s.tile * s.height < Word.limit ∧ s.tile * s.height * bits < Word.limit := by
  have hle := Nat.mul_le_mul_right bits (Nat.mul_le_mul_right s.height hfits.tile_le)
  have hgrow := Nat.le_mul_of_pos_right (s.tile * s.height) hbits
  omega

/-- The elements of a window are found in the tiles. -/
theorem answers_windowElements : Answers (s.windowElements kept bits) fun _ => True := by
  have htiles := tile_room hfits hbits hroom
  refine (Answers.mapM fun r hr => Answers.mapM (R := fun _ => True) fun j hj => ?_).bind
    fun _ _ => trivial
  have hwindow := Nat.le_mul_of_pos_right (s.window * s.height) hbits
  have hsource : Answers (s.source j r) fun place => place.2 < s.tile * s.height := by
    rw [source_ok hfits.tile_pos hfits.tile_le (by omega) (List.mem_range.mp hr)]
    exact pair_lt (Nat.mod_lt _ hfits.tile_pos) (List.mem_range.mp hr)
  exact hsource.bind fun _ hplace => answers_elementOf hplace htiles.2

/-- The logic of a column stage can be made. -/
theorem answers_body (hheight : 0 < s.height) : Answers (s.body bits) fun _ => True := by
  have htiles := tile_room hfits hbits hroom
  have hkept := hfits.kept_lt
  have hwidth : 0 < s.tile * s.height * bits :=
    Nat.mul_pos (Nat.mul_pos hfits.tile_pos hheight) hbits
  -- The sizes in front of the logic are words, one after the other.
  refine .bind_of_ok hfits.buffers_eq ?_
  split
  · trivial
  refine .bind_of_ok (Word.mul_eq_ok.mpr ⟨htiles.1, rfl⟩)
    (.bind_of_ok (Word.mul_eq_ok.mpr ⟨htiles.2, rfl⟩)
      (.bind_of_ok (Word.sub_eq_ok.mpr ⟨by omega, rfl⟩) ?_))
  refine Body.answers_join ?_
  simp only [List.forall_mem_cons, List.not_mem_nil, false_implies, implies_true, and_true]
  exact ⟨Body.answers_join_map fun _ _ => Body.answers_reg.mpr hwidth,
    Body.answers_reg.mpr (bitsNeededFor_pos _), Body.answers_net.mpr Nat.one_pos, trivial, trivial,
    Body.answers_net.mpr Nat.one_pos, trivial, Body.answers_join_map fun _ _ => trivial,
    (answers_windowElements hfits hbits hroom).bind fun _ _ => trivial⟩

end

end ColumnStage

namespace RowStage

variable {s : RowStage} {kept bits : Nat}

theorem Fits.tile1_le (hfits : s.Fits kept) : s.tile1 ≤ s.window1 := by
  rw [hfits.window1_eq]
  exact Nat.le_mul_of_pos_right _ (Nat.succ_pos _)

theorem Fits.buffers_eq (hfits : s.Fits kept) : s.buffers = .ok kept := by
  have hdiv : Word.div s.window1 s.tile1 = .ok (kept + 1) := by
    rw [Word.div, if_neg (Nat.ne_of_gt hfits.tile1_pos), hfits.window1_eq,
      Nat.mul_div_cancel_left _ hfits.tile1_pos]
  exact Fallible.bind_ok.mpr ⟨_, hdiv, Word.sub_eq_ok.mpr ⟨Nat.succ_pos _, rfl⟩⟩

section

variable (hfits : s.Fits kept) (hcarry : 0 < s.carry) (hbits : 0 < bits)
  (hroom : s.tile0 * s.window1 * s.carry * bits < Word.limit)

include hfits hcarry hbits hroom

/-- A tile is a part of a slice. -/
theorem tile_room : s.tile0 * s.tile1 < Word.limit ∧ s.tile0 * s.tile1 * s.carry < Word.limit ∧
    s.tile0 * s.tile1 * s.carry * bits < Word.limit := by
  have hle := Nat.mul_le_mul_right bits (Nat.mul_le_mul_right s.carry
    (Nat.mul_le_mul_left s.tile0 hfits.tile1_le))
  have hgrow := Nat.le_mul_of_pos_right (s.tile0 * s.tile1) hcarry
  have hgrow' := Nat.le_mul_of_pos_right (s.tile0 * s.tile1 * s.carry) hbits
  omega

/-- The elements of a slice are found in the tiles. -/
theorem answers_sliceElements : Answers (s.sliceElements kept bits) fun _ => True := by
  have htiles := tile_room hfits hcarry hbits hroom
  refine (Answers.mapM fun k hk => Answers.mapM fun j hj =>
    Answers.mapM (R := fun _ => True) fun i hi => ?_).bind fun _ _ => trivial
  have hslice : s.tile0 * (s.window1 * s.carry) < Word.limit := by
    rw [← Nat.mul_assoc]
    exact Nat.lt_of_le_of_lt (Nat.le_mul_of_pos_right _ hbits) hroom
  have hsource : Answers (s.source i j k) fun place => place.2 < s.tile0 * s.tile1 * s.carry := by
    rw [source_ok hfits.tile1_pos hfits.tile1_le hslice (List.mem_range.mp hi)
      (List.mem_range.mp hk), Nat.mul_assoc]
    exact pair_lt (List.mem_range.mp hi) (pair_lt (Nat.mod_lt _ hfits.tile1_pos)
      (List.mem_range.mp hk))
  exact hsource.bind fun _ hplace => answers_elementOf hplace htiles.2.2

/-- The logic of a row stage can be made, if a word counts what it reads in all turns. -/
theorem answers_body (hkept : kept * kept < Word.limit) : Answers (s.body bits) fun _ => True := by
  have htiles := tile_room hfits hcarry hbits hroom
  have hwidth : 0 < s.tile0 * s.tile1 * s.carry * bits :=
    Nat.mul_pos (Nat.mul_pos (Nat.mul_pos hfits.tile0_pos hfits.tile1_pos) hcarry) hbits
  have hrows : 0 < s.rows := Nat.zero_lt_of_lt hfits.kept_lt
  refine .bind_of_ok hfits.buffers_eq (.bind_of_ok (Word.mul_eq_ok.mpr ⟨htiles.1, rfl⟩)
    (.bind_of_ok (Word.mul_eq_ok.mpr ⟨htiles.2.1, rfl⟩)
      (.bind_of_ok (Word.mul_eq_ok.mpr ⟨htiles.2.2, rfl⟩)
        (.bind_of_ok (Word.sub_eq_ok.mpr ⟨hfits.tilesPerRow_pos, rfl⟩)
          (.bind_of_ok (Word.sub_eq_ok.mpr ⟨hrows, rfl⟩)
            (.bind_of_ok (Word.sub_eq_ok.mpr ⟨hfits.kept_pos, rfl⟩) ?_))))))
  -- The logic itself is a list of items, of which only those with a size can be refused.
  have hdeclared : ∀ m, Answers (s.rowDeclarations kept (s.tile0 * s.tile1 * s.carry * bits) m)
      fun _ => True := fun m => Body.answers_join (by simp [hwidth, hfits.tilesPerRow_pos])
  have hread : Answers (rowRead kept) fun _ => True :=
    .bind_of_ok (Word.mul_eq_ok.mpr ⟨hkept, rfl⟩) trivial
  refine Body.answers_join ?_
  simp only [List.forall_mem_cons, List.not_mem_nil, false_implies, implies_true, and_true]
  exact ⟨Body.answers_join_map fun m _ => hdeclared m, Body.answers_reg.mpr (bitsNeededFor_pos _),
    Body.answers_reg.mpr (bitsNeededFor_pos _), Body.answers_reg.mpr (bitsNeededFor_pos _),
    Body.answers_net.mpr Nat.one_pos, trivial, trivial, Body.answers_net.mpr Nat.one_pos,
    Body.answers_net.mpr Nat.one_pos, trivial, trivial, trivial, trivial, hread,
    (answers_sliceElements hfits hcarry hbits hroom).bind fun _ _ => trivial⟩

end

end RowStage

namespace LineBufferPlan.Whole

variable {p : LineBufferPlan} (h : p.Whole)

include h

/-- The windows of a dimension of a plan. -/
theorem kept_spec {d : LineBufferDimension} (hd : d ∈ p.dimensions) :
    d.window = d.tile * (d.kept + 1) ∧ d.kept < d.image / d.tile :=
  have hspec := LineBufferDimension.kept_spec (h.tile_pos d hd) (h.window_pos d hd)
    (h.tile_dvd d hd) (h.fits d hd)
  ⟨hspec.1, hspec.2.1⟩

/-- A row stage makes slices that are no larger than a window. -/
theorem answers_rowStage : Answers p.rowStage fun stage =>
    (stage = none → p.second = none) ∧ ∀ rows ∈ stage,
      (∃ kept, rows.Fits kept) ∧ 0 < rows.carry ∧ rows.tile0 ≤ p.first.window ∧
        p.first.window * (rows.window1 * rows.carry) = p.windowVolume := by
  have hfirst : p.first ∈ p.dimensions := List.mem_cons_self ..
  unfold rowStage
  split
  · next hnone => exact ⟨fun _ => hnone, fun _ hsome => absurd hsome (by simp)⟩
  next second hsecond =>
  -- There is a second dimension, and from here on it is one of those that have been checked.
  have hmem : second ∈ p.dimensions := by
    rw [dimensions, hsecond]
    exact List.mem_cons_of_mem _ (List.mem_singleton_self _)
  have htile := h.tile_pos _ hfirst
  have hkept := h.kept_spec hfirst
  have hkept' := h.kept_spec hmem
  refine .bind_of_ok (if_neg (Nat.ne_of_gt htile))
    (.bind_of_ok (if_neg (Nat.ne_of_gt (h.tile_pos _ hmem)))
      ⟨fun hnone => absurd hnone (by simp), fun rows hrows => ?_⟩)
  rcases Option.some.inj hrows with rfl
  refine ⟨⟨second.kept, htile, h.tile_pos _ hmem, hkept'.1, Nat.zero_lt_of_lt hkept.2,
    LineBufferDimension.kept_pos hkept'.1 (h.overlaps _ hsecond), hkept'.2⟩, h.carry_pos,
    Nat.le_of_dvd (h.window_pos _ hfirst) (h.tile_dvd _ hfirst), ?_⟩
  simp [windowVolume, hsecond]

/-- The column stage makes the windows. -/
theorem answers_columnStage (hroom : p.windowVolume < Word.limit) :
    Answers p.columnStage fun columns => columns.Fits p.first.kept ∧ 0 < columns.height ∧
      columns.window = p.first.window ∧ columns.window * columns.height = p.windowVolume := by
  have hfirst : p.first ∈ p.dimensions := List.mem_cons_self ..
  have hkept := h.kept_spec hfirst
  -- How high a slice is depends on the row stage, but it fills the window in either case.
  have hstage : ∀ height, 0 < height → p.first.window * height = p.windowVolume →
      Answers (do
        let tilesPerRow ← Word.div p.first.image p.first.tile
        return ColumnStage.mk p.first.tile p.first.window tilesPerRow height) fun columns =>
          columns.Fits p.first.kept ∧ 0 < columns.height ∧ columns.window = p.first.window ∧
            columns.window * columns.height = p.windowVolume := fun height hpos hvolume =>
    .bind_of_ok (if_neg (Nat.ne_of_gt (h.tile_pos _ hfirst)))
      ⟨⟨h.tile_pos _ hfirst, hkept.1, hkept.2⟩, hpos, rfl, hvolume⟩
  refine h.answers_rowStage.bind fun stage ⟨halone, hrows⟩ => ?_
  cases stage with
  | none => exact hstage p.carry h.carry_pos (by simp [windowVolume, halone rfl])
  | some rows =>
      rcases hrows rows rfl with ⟨⟨kept, hfits⟩, hcarry, _, hvolume⟩
      have hwindow : 0 < rows.window1 := Nat.lt_of_lt_of_le hfits.tile1_pos hfits.tile1_le
      have hle := Nat.le_mul_of_pos_left (rows.window1 * rows.carry) (h.window_pos _ hfirst)
      exact .bind_of_ok (Word.mul_eq_ok.mpr ⟨by omega, rfl⟩)
        (hstage _ (Nat.mul_pos hwindow hcarry) hvolume)

end LineBufferPlan.Whole

/-- A window fills an image that is no larger than itself. -/
theorem Shape.validate_stream {elem : ElemType} {extents : List Nat} (hbits : elem.bits ≠ 0)
    (hextents : 0 ∉ extents) : (Shape.stream elem extents).validate = .ok () := by
  have hcovered : (Shape.stream elem extents).uncovered? = none := by
    refine List.find?_eq_none.mpr fun x hx => ?_
    rcases List.mem_iff_getElem.mp hx with ⟨i, _, rfl⟩
    simp [Shape.stream]
  simp only [Shape.validate, hcovered]
  simp [Shape.stream, hbits, hextents]

theorem Shape.small_stream {elem : ElemType} {extents : List Nat} (hbits : 0 < elem.bits)
    (hlt : elem.bits < 2 ^ 32) (hpos : ∀ extent ∈ extents, 0 < extent)
    (helems : extents.prod < 2 ^ 32) : (Shape.stream elem extents).Small where
  valid := validate_stream (Nat.ne_of_gt hbits) fun hzero => absurd (hpos 0 hzero) (by omega)
  bits_lt := hlt
  elems_lt := helems
  stores_lt := fun store hstore =>
    Nat.lt_trans (lt_of_mem_extents hpos helems store hstore) (by decide)
  depth_lt _ := (by decide : 1 + 1 < Word.limit)

namespace LineBuffer

variable {elem : ElemType} {rows : RowStage} {columns : ColumnStage}

/-- The column stage behind a row stage is a module of its own. -/
theorem answers_makeColumns {name : String} {parameters : Parameters} {kept : Nat}
    (hbits : 0 < elem.bits) (hslice : (sliceShape elem rows).Small)
    (hwindow : (windowShape elem rows columns).Small) (hfits : columns.Fits kept)
    (hheight : 0 < columns.height)
    (hroom : columns.window * columns.height * elem.bits < Word.limit) :
    Replying Workshop.Renderable (makeColumns name parameters elem rows columns) fun _ =>
      Workshop.Renderable := by
  have hcommon : ∀ p ∈ Port.common, 0 < p.width := by decide
  refine .lift_bind (Port.answers_ofShape hslice) fun slicePorts _ hslicePorts =>
    .lift_bind (Port.answers_ofShape hwindow) fun windowPorts _ hwindowPorts =>
      .lift_bind (ColumnStage.answers_body hfits hbits hroom hheight) fun _ _ _ =>
        Making.answers_defined ?_
  simp only [List.forall_mem_append]
  exact ⟨⟨hcommon, hslicePorts⟩, hwindowPorts⟩

theorem answers_rowBody {columnName : String} {kept : Nat} (hbits : 0 < elem.bits)
    (hslice : (sliceShape elem rows).Small) (hwindow : (windowShape elem rows columns).Small)
    (hfits : rows.Fits kept) (hcarry : 0 < rows.carry) :
    Answers (rowBody columnName elem rows columns) fun _ => True := by
  -- The rows that are kept are fewer than those of the window, which are below `2 ^ 32`.
  have hkept : kept * kept < Word.limit := by
    have hlimit : Word.limit = 2 ^ 64 := rfl
    have hsmall : rows.window1 < 2 ^ 32 :=
      hslice.extent_lt _ (List.mem_cons_of_mem _ (List.mem_cons_self ..))
    have hle := Nat.le_mul_of_pos_left (kept + 1) hfits.tile1_pos
    rw [← hfits.window1_eq] at hle
    have hmul : kept * kept ≤ (2 ^ 32 - 1) * (2 ^ 32 - 1) := Nat.mul_le_mul (by omega) (by omega)
    omega
  have hroom : rows.tile0 * rows.window1 * rows.carry * elem.bits < Word.limit := by
    have hwidth := Nat.lt_of_succ_lt hslice.width_lt
    simp only [sliceShape, Shape.stream, RowStage.sliceExtents, List.prod_cons, List.prod_nil,
      Nat.mul_one] at hwidth
    rwa [Nat.mul_assoc rows.tile0]
  refine (hslice.answers_signals _ _).bind fun slice hsignals =>
    (hwindow.answers_signals _ _).bind fun window _ => Body.answers_join ?_
  simp only [List.forall_mem_cons, List.not_mem_nil, false_implies, implies_true, and_true]
  exact ⟨Body.answers_join_map fun s hs => Body.answers_wire.mpr (hsignals s hs),
    RowStage.answers_body hfits hcarry hbits hroom hkept, trivial⟩

theorem answers_make {c : Component} {image : List Nat} (hc : c.Small)
    (himage : (∀ extent ∈ image, 0 < extent) ∧ image.prod < Word.limit) :
    Replying Workshop.Renderable (make c image) fun _ => Workshop.Renderable := by
  have hlimit : Word.limit = 2 ^ 64 := rfl
  have hword : ∀ shape : Shape, shape.Small → FitsWord shape.extents := fun shape h =>
    ⟨h.extent_pos, Nat.lt_trans h.elems_lt (by decide)⟩
  refine .lift_bind hc.answers_portShape fun tile _ htile =>
    .lift_bind hc.answers_portShape fun window _ hwindow => ?_
  split
  · exact fun _ _ => trivial
  next helem =>
  have helem := not_not.mp helem
  refine .lift_bind (LineBufferPlan.answers_ofShapes (hword tile htile)
    (hword window hwindow) ⟨himage.1, himage.2⟩) fun plan hplan hwhole =>
      Making.answers_unless ?_
  have hvolume := LineBufferPlan.ofShapes_window hplan
  have hroom : plan.windowVolume < Word.limit := hvolume ▸ (hword window hwindow).lt
  have hwidth := hwindow.width_lt
  rw [← hvolume, ← helem] at hwidth
  refine .lift_bind (hwhole.answers_columnStage hroom) fun columns _ hcolumns =>
    .lift_bind hwhole.answers_rowStage fun stage _ hstage => ?_
  have hcolumnRoom : columns.window * columns.height * tile.elem.bits < Word.limit := by
    rw [hcolumns.2.2.2]
    omega
  -- Without overlapping rows there is no stage in front of the columns.
  cases stage with
  | none =>
      exact .lift_bind hc.answers_modulePorts fun ports _ hports =>
        .lift_bind (ColumnStage.answers_body hcolumns.1 htile.bits_pos hcolumnRoom hcolumns.2.1)
          fun _ _ _ => Making.answers_defined hports
  | some rows =>
      rcases hstage.2 rows rfl with ⟨⟨kept, hfits⟩, hcarry, hle, hrows⟩
      have hwindowPos : 0 < plan.first.window := hwhole.window_pos _ (List.mem_cons_self ..)
      -- A slice is no larger than the window, so it is small as well.
      have hrowPos : 0 < rows.window1 := Nat.lt_of_lt_of_le hfits.tile1_pos hfits.tile1_le
      have helems : plan.first.window * (rows.window1 * rows.carry) < 2 ^ 32 := by
        rw [hrows, hvolume]
        exact hwindow.elems_lt
      have hslice : (sliceShape tile.elem rows).Small := by
        have hpart := Nat.mul_le_mul_right (rows.window1 * rows.carry) hle
        refine Shape.small_stream htile.bits_pos htile.bits_lt ?_ ?_
        · simp [RowStage.sliceExtents, hfits.tile0_pos, hrowPos, hcarry]
        · simp only [RowStage.sliceExtents, List.prod_cons, List.prod_nil, Nat.mul_one]
          omega
      have hwindows : (windowShape tile.elem rows columns).Small := by
        refine Shape.small_stream htile.bits_pos htile.bits_lt ?_ ?_
        · simp [hcolumns.2.2.1, hwindowPos, hrowPos, hcarry]
        · simpa [hcolumns.2.2.1] using helems
      exact (answers_makeColumns htile.bits_pos hslice hwindows hcolumns.1 hcolumns.2.1
        hcolumnRoom).bind fun columnName => .lift_bind hc.answers_modulePorts fun ports _ hports =>
          .lift_bind (answers_rowBody htile.bits_pos hslice hwindows hfits hcarry) fun _ _ _ =>
            Making.answers_defined hports

end LineBuffer

end StencilRtl
