import Mathlib.Algebra.BigOperators.Group.List.Basic
import StencilRtl.Proofs.Fallible
import StencilRtl.Proofs.LineBuffer.Images

/-!
# What a Plan Leaves of an Image

A plan has one or two dimensions, and the image it speaks of is the image it was made
for.

Folding and carrying change how the elements of an image are counted, not the image.
`Rereads` says of two lists of dimensions that the tiles of one are those of the other,
in the same order and with the same contents, and the same of the windows, if only the
image is read in another way. Folding gives such a pair in each of its steps. Whether a
window fits the dimension it was folded from is not checked then, but it has been
checked of what came out in the end, so the induction passes that back.

What remains is a solid, and `Laid` says how the plan describes it. A second dimension
without overlap is not a dimension of the plan any more, but the tiles and windows are
still those of a solid that has it.

## Main definitions

* `Rereads`: Two lists of dimensions with the same tiles and windows.
* `LineBufferPlan.Laid`: A plan describes the tiles and windows of a solid.
* `LineBufferPlan.windowVolume`: The number of elements in a window.

## Theorems

* `LineBufferPlan.ofShapes_steps`: The steps of planning.
* `LineBufferPlan.folded_ok`: Folding keeps the tiles and windows.
* `LineBufferPlan.ofShapes_ok`: So does planning as a whole.
* `LineBufferPlan.ofShapes_window`, `LineBufferPlan.stages_window`: Windows have as many elements
  as they should.
-/

namespace StencilRtl

open LineBufferDimension

/-- Two lists of dimensions have the same tiles and the same windows, if the image is
    read in some way. -/
structure Rereads (ds ds' : List LineBufferDimension)
    (read : (List Nat → Nat) → List Nat → Nat) : Prop where
  tiles : ∀ bits image, blocks bits (·.tile) ds image = blocks bits (·.tile) ds' (read image)
  windows : ∀ bits image, blocks bits (·.window) ds image = blocks bits (·.window) ds' (read image)
  tile_prod : (ds.map (·.tile)).prod = (ds'.map (·.tile)).prod
  window_prod : (ds.map (·.window)).prod = (ds'.map (·.window)).prod
  read_lt : ∀ bound image, (∀ p, image p < bound) → ∀ p, read image p < bound

theorem Rereads.refl (ds : List LineBufferDimension) : Rereads ds ds id :=
  ⟨fun _ _ => rfl, fun _ _ => rfl, rfl, rfl, fun _ _ h => h⟩

theorem Rereads.trans {ds ds' ds'' : List LineBufferDimension}
    {read read' : (List Nat → Nat) → List Nat → Nat} (h : Rereads ds ds' read)
    (h' : Rereads ds' ds'' read') : Rereads ds ds'' (read' ∘ read) := by
  refine ⟨?_, ?_, ?_, ?_, ?_⟩
  · exact fun bits image => (h.tiles bits image).trans (h'.tiles bits (read image))
  · exact fun bits image => (h.windows bits image).trans (h'.windows bits (read image))
  · exact h.tile_prod.trans h'.tile_prod
  · exact h.window_prod.trans h'.window_prod
  · exact fun bound image hlt => h'.read_lt bound _ (h.read_lt bound image hlt)

namespace LineBufferDimension

variable {d n : LineBufferDimension}

theorem isWhole_eq (h : d.isWhole = true) : d.tile = d.image ∧ d.window = d.image := by
  rw [isWhole, Bool.and_eq_true, decide_eq_true_eq, decide_eq_true_eq] at h
  exact ⟨h.1.trans h.2, h.2⟩

theorem Regular.tile_le (h : d.Regular) : d.tile ≤ d.image := Nat.le_of_dvd h.image_pos h.tile_dvd

/-- A dimension with another one folded into it. -/
theorem Regular.scaled (hn : n.Regular) {e : Nat} (he : 0 < e) :
    Regular ⟨n.tile * e, n.window * e, n.image * e⟩ :=
  ⟨Nat.mul_pos hn.tile_pos he, Nat.mul_pos hn.window_pos he, Nat.mul_pos hn.image_pos he,
    Nat.mul_dvd_mul_right hn.tile_dvd e⟩

end LineBufferDimension

/-- Folding one dimension. -/
theorem Rereads.merge {d n : LineBufferDimension} (hd : d.Regular) (hwhole : d.isWhole = true)
    (hn : n.Regular) (hfits : n.window ≤ n.image) (rest : List LineBufferDimension) :
    Rereads (d :: n :: rest) (⟨n.tile * d.tile, n.window * d.window, n.image * d.image⟩ :: rest)
      (StencilRtl.merge d.image) := by
  rcases isWhole_eq hwhole with ⟨htile, hwindow⟩
  rw [htile, hwindow]
  refine ⟨?_, ?_, ?_, ?_, ?_⟩
  · exact fun bits => blocks_merge hd.image_pos htile hn.tile_le rfl bits rest
  · exact fun bits => blocks_merge hd.image_pos hwindow hfits rfl bits rest
  · simp only [List.map_cons, List.prod_cons, htile]
    rw [← Nat.mul_assoc, Nat.mul_comm d.image]
  · simp only [List.map_cons, List.prod_cons, hwindow]
    rw [← Nat.mul_assoc, Nat.mul_comm d.image]
  · exact fun bound image h => merge_lt h

namespace LineBufferPlan

/-- A step of folding. -/
theorem folded_cons {d n : LineBufferDimension} {rest : List LineBufferDimension}
    {left : LineBufferDimension × List LineBufferDimension} (h : folded d (n :: rest) = .ok left) :
    (d.isWhole = true ∧
      folded ⟨n.tile * d.tile, n.window * d.window, n.image * d.image⟩ rest = .ok left) ∨
        left = (d, n :: rest) := by
  rw [folded] at h
  split at h
  · next hwhole =>
    rcases Fallible.bind_ok.mp h with ⟨tile, htile, h⟩
    rcases Fallible.bind_ok.mp h with ⟨window, hwindow, h⟩
    rcases Fallible.bind_ok.mp h with ⟨image, himage, h⟩
    rcases Word.mul_eq_ok.mp htile with ⟨_, rfl⟩
    rcases Word.mul_eq_ok.mp hwindow with ⟨_, rfl⟩
    rcases Word.mul_eq_ok.mp himage with ⟨_, rfl⟩
    exact .inl ⟨hwhole, h⟩
  · exact .inr (Except.ok.inj h).symm

/-- A window that fits what is left after folding fits the dimension it began with. -/
theorem folded_fits {d first : LineBufferDimension} {rest left : List LineBufferDimension}
    (h : folded d rest = .ok (first, left)) (hfits : first.window ≤ first.image) :
    d.window ≤ d.image := by
  cases rest with
  | nil =>
      rcases Except.ok.inj h with ⟨⟩
      exact hfits
  | cons n rest =>
      rcases folded_cons h with ⟨hwhole, _⟩ | hleft
      · exact Nat.le_of_eq (isWhole_eq hwhole).2
      · rcases hleft with ⟨⟩
        exact hfits

/-- What holds of two dimensions and of the one they are folded into holds of those after a step
of folding. -/
theorem forall_merge {P : LineBufferDimension → Prop} {d n : LineBufferDimension}
    {rest : List LineBufferDimension} (h : ∀ d' ∈ d :: n :: rest, P d')
    (hmerge : P d → P n → P ⟨n.tile * d.tile, n.window * d.window, n.image * d.image⟩) :
    ∀ d' ∈ (⟨n.tile * d.tile, n.window * d.window, n.image * d.image⟩ : LineBufferDimension)
      :: rest, P d' := by
  simp only [List.forall_mem_cons] at h ⊢
  exact ⟨hmerge h.1 h.2.1, h.2.2⟩

/-- So it holds of all that are left after folding. -/
theorem folded_forall {P : LineBufferDimension → Prop} {rest left : List LineBufferDimension}
    {d first : LineBufferDimension} (h : folded d rest = .ok (first, left))
    (hall : ∀ d' ∈ d :: rest, P d') (hmerge : ∀ d n : LineBufferDimension, d.isWhole = true → P d →
      P n → P ⟨n.tile * d.tile, n.window * d.window, n.image * d.image⟩) :
    ∀ d' ∈ first :: left, P d' := by
  induction rest generalizing d with
  | nil =>
      rcases Except.ok.inj h with ⟨⟩
      exact hall
  | cons n rest ih =>
      rcases folded_cons h with ⟨hwhole, h⟩ | hleft
      · exact ih h (forall_merge hall (hmerge d n hwhole))
      · rcases hleft with ⟨⟩
        exact hall

/-- Folding a regular dimension into a regular one leaves a regular one. -/
theorem regular_merge {d n : LineBufferDimension} (hwhole : d.isWhole = true) (hd : d.Regular)
    (hn : n.Regular) :
    Regular ⟨n.tile * d.tile, n.window * d.window, n.image * d.image⟩ := by
  rcases isWhole_eq hwhole with ⟨htile, hwindow⟩
  rw [htile, hwindow]
  exact hn.scaled hd.image_pos

/-- Folding keeps the tiles and the windows. -/
theorem folded_ok {rest left : List LineBufferDimension} {d first : LineBufferDimension}
    (h : folded d rest = .ok (first, left)) (hregular : ∀ d' ∈ d :: rest, d'.Regular)
    (hfits : first.window ≤ first.image) : ∃ read, Rereads (d :: rest) (first :: left) read := by
  -- Induction on the dimensions not yet looked at, along the recursion of folding.
  induction rest generalizing d with
  | nil =>
      rcases Except.ok.inj h with ⟨⟩
      exact ⟨_, .refl _⟩
  | cons n rest ih =>
      have hd := hregular d (List.mem_cons_self ..)
      have hn := hregular n (by simp)
      rcases folded_cons h with ⟨hwhole, h⟩ | hleft
      · have hmerged : n.window ≤ n.image := by
          have hle : n.window * d.window ≤ n.image * d.image := folded_fits h hfits
          rw [(isWhole_eq hwhole).2] at hle
          exact Nat.le_of_mul_le_mul_right hle hd.image_pos
        rcases ih h (forall_merge hregular (regular_merge hwhole)) with ⟨read, hread⟩
        exact ⟨_, (Rereads.merge hd hwhole hn hmerged rest).trans hread⟩
      · rcases hleft with ⟨⟩
        exact ⟨_, .refl _⟩

/-- What has been checked of the dimensions. -/
theorem checkDimensions_ok {ds : List LineBufferDimension} {number : Nat}
    (h : checkDimensions number ds = .ok ()) :
    ∀ d ∈ ds, 0 < d.tile → d.tile ∣ d.window ∧ d.window ≤ d.image := by
  induction ds generalizing number with
  -- An induction along the checks, each of which refuses or goes on to the next dimension.
  | nil => exact fun d hd => absurd hd List.not_mem_nil
  | cons first rest ih =>
      intro d hd hpos
      rw [checkDimensions] at h
      rcases Fallible.bind_ok.mp h with ⟨excess, hover, h⟩
      split at h
      · exact absurd h (by simp [unsupported])
      · next hwindow =>
        rcases Fallible.bind_ok.mp h with ⟨left, _, h⟩
        split at h
        · exact absurd h (by simp [unsupported])
        · split at h
          · exact absurd h (by simp [unsupported])
          · next hfits =>
            rcases List.mem_cons.mp hd with rfl | hd
            · rw [Word.mod, if_neg (Nat.ne_of_gt hpos)] at hover
              refine ⟨Nat.dvd_of_mod_eq_zero ?_, by omega⟩
              rw [Except.ok.inj hover]
              omega
            · exact ih h d hd hpos

/-- A plan describes the tiles and windows of a solid that are those of some
    dimensions. The second dimension is one of the plan's unless it has no overlap. -/
structure Laid (p : LineBufferPlan) (ds : List LineBufferDimension)
    (second : LineBufferDimension) (depth : Nat)
    (read : (List Nat → Nat) → Nat → Nat → Nat → Nat) : Prop where
  first_regular : p.first.Regular
  first_dvd : p.first.tile ∣ p.first.window
  first_fits : p.first.window ≤ p.first.image
  second_regular : second.Regular
  second_dvd : second.tile ∣ second.window
  second_fits : second.window ≤ second.image
  carried : (p.second = none ∧ second.tile = second.window ∧ p.carry = second.tile * depth) ∨
    (p.second = some second ∧ second.tile ≠ second.window ∧ p.carry = depth)
  tiles : ∀ bits image,
    blocks bits (·.tile) ds image = solid bits (·.tile) p.first second depth (read image)
  windows : ∀ bits image,
    blocks bits (·.window) ds image = solid bits (·.window) p.first second depth (read image)
  tile_prod : (ds.map (·.tile)).prod = p.first.tile * (second.tile * depth)
  window_prod : (ds.map (·.window)).prod = p.first.window * (second.window * depth)
  read_lt : ∀ bound image, (∀ q, image q < bound) → ∀ x y k, read image x y k < bound

/-- The same plan describes the same tiles and windows of another list of dimensions. -/
theorem Laid.of_rereads {p : LineBufferPlan} {ds ds' : List LineBufferDimension}
    {second : LineBufferDimension} {depth : Nat}
    {read : (List Nat → Nat) → Nat → Nat → Nat → Nat} {read' : (List Nat → Nat) → List Nat → Nat}
    (h : p.Laid ds' second depth read) (h' : Rereads ds ds' read') :
    p.Laid ds second depth (read ∘ read') := by
  refine ⟨h.first_regular, h.first_dvd, h.first_fits, h.second_regular, h.second_dvd,
    h.second_fits, h.carried, ?_, ?_, ?_, ?_, ?_⟩
  · exact fun bits image => (h'.tiles bits image).trans (h.tiles bits (read' image))
  · exact fun bits image => (h'.windows bits image).trans (h.windows bits (read' image))
  · exact h'.tile_prod.trans h.tile_prod
  · exact h'.window_prod.trans h.window_prod
  · exact fun bound image hlt => h.read_lt bound _ (h'.read_lt bound image hlt)

/-- A second dimension is carried along if it has no overlap. -/
theorem carrySecond_ok {first second : LineBufferDimension} {carry : Nat} {p : LineBufferPlan}
    (h : carried.carrySecond first second carry = .ok p) : p.first = first ∧
      ((p.second = none ∧ second.tile = second.window ∧ p.carry = second.tile * carry) ∨
        (p.second = some second ∧ second.tile ≠ second.window ∧ p.carry = carry)) := by
  rw [carried.carrySecond] at h
  split at h
  · next hwhole =>
    rcases Fallible.bind_ok.mp h with ⟨volume, hvolume, h⟩
    rcases Word.mul_eq_ok.mp hvolume with ⟨_, rfl⟩
    rcases Except.ok.inj h with ⟨⟩
    exact ⟨rfl, .inl ⟨rfl, hwhole, Nat.mul_comm ..⟩⟩
  · next hover =>
    rcases Except.ok.inj h with ⟨⟩
    exact ⟨rfl, .inr ⟨rfl, hover, rfl⟩⟩

/-- A checked second dimension, or one without overlap, is made of tiles and fits. -/
theorem second_checked {p : LineBufferPlan} {second : LineBufferDimension} {depth : Nat}
    (hcheck : checkDimensions 0 p.dimensions = .ok ()) (hregular : second.Regular)
    (hcarried : (p.second = none ∧ second.tile = second.window ∧ p.carry = second.tile * depth) ∨
      (p.second = some second ∧ second.tile ≠ second.window ∧ p.carry = depth)) :
    second.tile ∣ second.window ∧ second.window ≤ second.image := by
  rcases hcarried with ⟨_, hwhole, _⟩ | ⟨hsecond, _, _⟩
  · rw [← hwhole]
    exact ⟨Nat.dvd_refl _, hregular.tile_le⟩
  · refine checkDimensions_ok hcheck second ?_ hregular.tile_pos
    rw [dimensions, hsecond]
    exact List.mem_cons_of_mem _ (List.mem_singleton_self _)

/-- Carrying keeps the tiles and the windows. -/
theorem carried_ok {tile window image : List Nat} {first : LineBufferDimension}
    {left : List LineBufferDimension} {p : LineBufferPlan}
    (h : carried tile window image first left = .ok p) (hregular : ∀ d ∈ first :: left, d.Regular)
    (hcheck : checkDimensions 0 p.dimensions = .ok ()) :
    p.first = first ∧ ∃ second depth read, p.Laid (first :: left) second depth read := by
  have hfirst := hregular first (List.mem_cons_self ..)
  have hfirst' := checkDimensions_ok hcheck p.first (List.mem_cons_self ..)
  -- One case for each number of dimensions that are left. What is not there counts as one.
  match left with
  | [] =>
      rcases Except.ok.inj h with ⟨⟩
      rcases hfirst' hfirst.tile_pos with ⟨hdvd, hfits⟩
      refine ⟨rfl, ⟨1, 1, 1⟩, 1, fun image x _ _ => image [x], ?_⟩
      refine ⟨hfirst, hdvd, hfits, ⟨by decide, by decide, by decide, Nat.dvd_refl _⟩,
        Nat.dvd_refl _, Nat.le_refl _, .inl ⟨rfl, rfl, rfl⟩, ?_, ?_, ?_, ?_, ?_⟩
      · exact fun bits => blocks_one rfl
      · exact fun bits => blocks_one rfl
      · rfl
      · rfl
      · exact fun bound image hlt x y k => hlt _
  | [second] =>
      rcases carrySecond_ok h with ⟨rfl, hcarried⟩
      have hsecond := hregular second (by simp)
      rcases hfirst' hfirst.tile_pos with ⟨hdvd, hfits⟩
      rcases second_checked hcheck hsecond hcarried with ⟨hdvd', hfits'⟩
      refine ⟨rfl, second, 1, fun image x y _ => image [x, y], ?_⟩
      refine ⟨hfirst, hdvd, hfits, hsecond, hdvd', hfits', hcarried, ?_, ?_, ?_, ?_, ?_⟩
      · exact fun bits => blocks_two
      · exact fun bits => blocks_two
      · simp only [List.map_cons, List.map_nil, List.prod_cons, List.prod_nil]
      · simp only [List.map_cons, List.map_nil, List.prod_cons, List.prod_nil]
      · exact fun bound image hlt x y k => hlt _
  | [second, third] =>
      rw [carried] at h
      split at h
      · next hwhole =>
        rcases isWhole_eq hwhole with ⟨htile, hwindow⟩
        rcases carrySecond_ok h with ⟨rfl, hcarried⟩
        rw [htile] at hcarried
        have hsecond := hregular second (by simp)
        rcases hfirst' hfirst.tile_pos with ⟨hdvd, hfits⟩
        rcases second_checked hcheck hsecond hcarried with ⟨hdvd', hfits'⟩
        refine ⟨rfl, second, third.image, fun image x y k => image [x, y, k], ?_⟩
        refine ⟨hfirst, hdvd, hfits, hsecond, hdvd', hfits', hcarried, ?_, ?_, ?_, ?_, ?_⟩
        · exact fun bits => blocks_three htile
        · exact fun bits => blocks_three hwindow
        · simp only [List.map_cons, List.map_nil, List.prod_cons, List.prod_nil, htile, Nat.mul_one]
        · simp only [List.map_cons, List.map_nil, List.prod_cons, List.prod_nil, hwindow,
            Nat.mul_one]
        · exact fun bound image hlt x y k => hlt _
      · exact absurd h (by simp [unsupported])
  | _ :: _ :: _ :: _ => exact absurd h (by simp [carried, unsupported])

/-- Shapes that are planned have one rank. -/
theorem ofShapes_ranks {tile window image : List Nat} {p : LineBufferPlan}
    (h : ofShapes tile window image = .ok p) :
    tile.length = window.length ∧ tile.length = image.length := by
  unfold ofShapes at h
  split at h
  · exact absurd h (by simp [malformed])
  · next hranks => exact ⟨by omega, by omega⟩

section

variable {tile window image : List Nat}
  (hranks : tile.length = window.length ∧ tile.length = image.length)

include hranks

theorem dimensionsOf_tile : (dimensionsOf tile window image).map (·.tile) = tile := by
  rw [dimensionsOf, List.map_map]
  refine Eq.trans (List.map_congr_left fun _ _ => rfl) (List.map_fst_zip ?_)
  rw [List.length_zip]
  omega

theorem dimensionsOf_window : (dimensionsOf tile window image).map (·.window) = window := by
  have hzip : (dimensionsOf tile window image).map (·.window)
      = ((tile.zip (window.zip image)).map Prod.snd).map Prod.fst := by
    rw [dimensionsOf, List.map_map, List.map_map]
    rfl
  rw [hzip, List.map_snd_zip, List.map_fst_zip]
  · omega
  · rw [List.length_zip]
    omega

end

/-- Planning folds, then carries, and then checks what is left. -/
theorem ofShapes_steps {tile window image : List Nat} {p : LineBufferPlan}
    (h : ofShapes tile window image = .ok p) : ∃ d rest first left,
      dimensionsOf tile window image = d :: rest ∧ folded d rest = .ok (first, left) ∧
        carried tile window image first left = .ok p ∧
          checkDimensions 0 p.dimensions = .ok () := by
  unfold ofShapes at h
  split at h
  · exact absurd h (by simp [malformed])
  · split at h
    · exact absurd h (by simp [unsupported])
    · split at h
      · exact absurd h (by simp [unsupported])
      · next d rest hds =>
        rcases Fallible.bind_ok.mp h with ⟨⟨first, left⟩, hfolded, h⟩
        rcases Fallible.bind_ok.mp h with ⟨plan, hcarried, h⟩
        rcases Fallible.bind_ok.mp h with ⟨_, hcheck, h⟩
        rcases Except.ok.inj h with ⟨⟩
        exact ⟨d, rest, first, left, hds, hfolded, hcarried, hcheck⟩

/-- What a plan is made for: the tiles and windows of a solid. -/
theorem ofShapes_ok {tile window image : List Nat} {p : LineBufferPlan}
    (h : ofShapes tile window image = .ok p)
    (hregular : ∀ d ∈ dimensionsOf tile window image, d.Regular) :
    ∃ second depth read, p.Laid (dimensionsOf tile window image) second depth read := by
  rcases ofShapes_steps h with ⟨d, rest, first, left, hds, hfolded, hcarried, hcheck⟩
  rw [hds] at hregular ⊢
  rcases carried_ok hcarried (folded_forall hfolded hregular fun _ _ => regular_merge) hcheck
    with ⟨rfl, second, depth, read, hlaid⟩
  rcases folded_ok hfolded hregular hlaid.first_fits with ⟨read', hread⟩
  exact ⟨second, depth, _, hlaid.of_rereads hread⟩

/-- The number of elements in a window of a plan. -/
def windowVolume (p : LineBufferPlan) : Nat :=
  p.first.window * ((p.second.toList.map (·.window)).prod * p.carry)

/-- Folding keeps the number of elements in a window. -/
theorem folded_window {d first : LineBufferDimension} {rest left : List LineBufferDimension}
    (h : folded d rest = .ok (first, left)) :
    ((first :: left).map (·.window)).prod = ((d :: rest).map (·.window)).prod := by
  induction rest generalizing d with
  | nil =>
      rcases Except.ok.inj h with ⟨⟩
      rfl
  | cons n rest ih =>
      rcases folded_cons h with ⟨_, h⟩ | hleft
      · rw [ih h]
        simp only [List.map_cons, List.prod_cons]
        rw [Nat.mul_comm n.window, Nat.mul_assoc]
      · rcases hleft with ⟨⟩
        rfl

/-- So does carrying. -/
theorem carried_window {tile window image : List Nat} {first : LineBufferDimension}
    {left : List LineBufferDimension} {p : LineBufferPlan}
    (h : carried tile window image first left = .ok p) :
    p.windowVolume = ((first :: left).map (·.window)).prod := by
  -- The second dimension is carried or gets a stage of its own; a third one has to be whole, and
  -- rides along in either case.
  have hsecond : ∀ {second carry}, carried.carrySecond first second carry = .ok p →
      p.windowVolume = first.window * (second.window * carry) := by
    intro second carry h
    rcases carrySecond_ok h with ⟨rfl, ⟨hnone, hwhole, hcarry⟩ | ⟨hsome, _, hcarry⟩⟩
    · simp [windowVolume, hnone, hcarry, hwhole]
    · simp [windowVolume, hsome, hcarry]
  match left with
  | [] =>
      rcases Except.ok.inj h with ⟨⟩
      simp [windowVolume]
  | [second] => simpa using hsecond h
  | [second, third] =>
      rw [carried] at h
      split at h
      · next hwhole =>
        rcases isWhole_eq hwhole with ⟨htile, hwindow⟩
        simpa [htile, hwindow] using hsecond h
      · exact absurd h (by simp [unsupported])
  | _ :: _ :: _ :: _ => exact absurd h (by simp [carried, unsupported])

/-- A plan has windows of as many elements as the windows it was made for. -/
theorem ofShapes_window {tile window image : List Nat} {p : LineBufferPlan}
    (h : ofShapes tile window image = .ok p) : p.windowVolume = window.prod := by
  have hwindow := dimensionsOf_window (ofShapes_ranks h)
  rcases ofShapes_steps h with ⟨d, rest, first, left, hds, hfolded, hcarried, _⟩
  rw [hds] at hwindow
  rw [carried_window hcarried, folded_window hfolded, hwindow]

/-- The two stages of a plan put together windows of as many elements. -/
theorem stages_window {p : LineBufferPlan} {rows : RowStage} {columns : ColumnStage}
    (hrows : p.rowStage = .ok (some rows)) (hcolumns : p.columnStage = .ok columns) :
    columns.window * (rows.window1 * rows.carry) = p.windowVolume := by
  have hwindow : columns.window = p.first.window := by
    rcases Fallible.bind_ok.mp hcolumns with ⟨stage, hstage, h⟩
    rcases Except.ok.inj (hrows.symm.trans hstage) with rfl
    rcases Fallible.bind_ok.mp h with ⟨_, _, h⟩
    rcases Fallible.bind_ok.mp h with ⟨_, _, h⟩
    rw [← Except.ok.inj h]
  unfold rowStage at hrows
  split at hrows
  · exact absurd (Except.ok.inj hrows) (by simp)
  · next second hsecond =>
    rcases Fallible.bind_ok.mp hrows with ⟨_, _, h⟩
    rcases Fallible.bind_ok.mp h with ⟨_, _, h⟩
    rcases Option.some.inj (Except.ok.inj h) with rfl
    simp [windowVolume, hsecond, hwindow]

end LineBufferPlan

end StencilRtl
