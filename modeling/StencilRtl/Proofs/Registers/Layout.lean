import StencilRtl.Proofs.Tuples
import StencilRtl.Proofs.Words
import StencilRtl.RegisterMap

/-!
# The Layout of a Register Array

Where the host finds the elements of a parameter.

The elements of a box are numbered in two ways. `flatIndex` computes the number of an
element from its coordinates, the last one first, and `RegisterEntry.elements` lists
the elements with their addresses, going through a product of the reversed extents in
which the last factor is fastest. Both count dimension 0 fastest: the product is
`rowMajor`, each of its tuples read backwards, and a tuple stands in `rowMajor` at the
place that `flatIndex` gives it. So an address is an offset and a number, and nothing of
it depends on how the numbering came about.

Entries follow each other without gaps, or else a map does not pass its check. All that
is wanted of this later is that the addresses of all elements of a map increase, since
then no two of them are the same.

## Main definitions

* `Inside`: Coordinates in a box.
* `RegisterMap.addresses`: The addresses of some entries.

## Theorems

* `flatIndex_of_inside`: The elements of a box have numbers.
* `flatIndex_injective`, `exists_flatIndex`: Each number is that of one element.
* `rowMajor_flatIndex`: Elements are listed by their numbers.
* `RegisterEntry.elements_flatIndex`: The address and the name of an element.
* `RegisterMap.addresses_of_validateFrom`: Addresses increase.
-/

namespace StencilRtl

/-- Coordinates in a box. -/
def Inside (extents index : List Nat) : Prop := List.Forall₂ (· < ·) index extents

theorem flatIndex_cons (extent : Nat) (extents : List Nat) (i : Nat) (index : List Nat) :
    flatIndex (extent :: extents) (i :: index)
      = (do Word.add (← Word.mul (← flatIndex extents index) extent) i) := by
  simp only [flatIndex, List.zip_cons_cons, List.foldrM_cons]

/-- The number of an element, one coordinate at a time. -/
theorem flatIndex_cons_ok {extent i flat : Nat} {extents index : List Nat}
    (h : flatIndex (extent :: extents) (i :: index) = .ok flat) :
    ∃ rest, flatIndex extents index = .ok rest ∧ flat = i + extent * rest := by
  rw [flatIndex_cons] at h
  rcases Fallible.bind_ok.mp h with ⟨rest, hrest, hstep⟩
  rcases Fallible.bind_ok.mp hstep with ⟨product, hproduct, hsum⟩
  refine ⟨rest, hrest, ?_⟩
  rw [← (Word.add_eq_ok.mp hsum).2, ← (Word.mul_eq_ok.mp hproduct).2, Nat.mul_comm, Nat.add_comm]

/-- The number of an element is below the number of elements. -/
theorem flatIndex_lt {extents index : List Nat} {flat : Nat} (h : Inside extents index)
    (hflat : flatIndex extents index = .ok flat) : flat < extents.prod := by
  induction h generalizing flat with
  | nil =>
      rcases Except.ok.inj hflat with rfl
      exact Nat.one_pos
  | @cons i extent index extents hi _ ih =>
      rcases flatIndex_cons_ok hflat with ⟨rest, hrest, rfl⟩
      rw [List.prod_cons]
      exact pair_lt hi (ih hrest)

/-- The elements of a box that fits a word have numbers. -/
theorem flatIndex_of_inside {extents index : List Nat} (h : Inside extents index)
    (hroom : extents.prod < Word.limit) : ∃ flat, flatIndex extents index = .ok flat := by
  induction h with
  | nil => exact ⟨0, rfl⟩
  | @cons i extent index extents hi hinside ih =>
      rw [List.prod_cons] at hroom
      have hpos : 0 < extent := by omega
      have htail : extents.prod < Word.limit :=
        Nat.lt_of_le_of_lt (Nat.le_mul_of_pos_left _ hpos) hroom
      rcases ih htail with ⟨flat, hflat⟩
      -- No product or sum on the way exceeds the last one, which is below the size of the box.
      have hnumber : i + extent * flat < extent * extents.prod :=
        pair_lt hi (flatIndex_lt hinside hflat)
      have hmul : Word.mul flat extent = .ok (flat * extent) :=
        Word.mul_eq_ok.mpr ⟨by rw [Nat.mul_comm]; omega, rfl⟩
      have hadd : Word.add (flat * extent) i = .ok (i + extent * flat) :=
        Word.add_eq_ok.mpr ⟨by rw [Nat.mul_comm]; omega, by rw [Nat.mul_comm, Nat.add_comm]⟩
      refine ⟨i + extent * flat, ?_⟩
      rw [flatIndex_cons]
      exact Fallible.bind_ok.mpr ⟨flat, hflat, Fallible.bind_ok.mpr ⟨_, hmul, hadd⟩⟩

/-- Elements of a box with one number are one element. -/
theorem flatIndex_injective {extents index index' : List Nat} {flat : Nat}
    (h : Inside extents index) (h' : Inside extents index')
    (hflat : flatIndex extents index = .ok flat) (hflat' : flatIndex extents index' = .ok flat) :
    index = index' := by
  induction h generalizing index' flat with
  | nil => exact (List.forall₂_nil_right_iff.mp h').symm
  | @cons i extent index extents hi _ ih =>
      cases h' with
      | @cons i' _ more _ hi' hmore =>
          rcases flatIndex_cons_ok hflat with ⟨rest, hrest, hnumber⟩
          rcases flatIndex_cons_ok hflat' with ⟨rest', hrest', hnumber'⟩
          have hfirst := pair_mod_div hi rest
          have hsecond := pair_mod_div hi' rest'
          rw [← hnumber, hnumber'] at hfirst
          rw [hfirst.1.symm.trans hsecond.1]
          have hsame : rest = rest' := hfirst.2.symm.trans hsecond.2
          rw [ih hmore hrest (hsame ▸ hrest')]

/-- Every number below the size of a box is that of an element. -/
theorem exists_flatIndex {extents : List Nat} (hroom : extents.prod < Word.limit) {flat : Nat}
    (h : flat < extents.prod) :
    ∃ index, Inside extents index ∧ flatIndex extents index = .ok flat := by
  induction extents generalizing flat with
  | nil =>
      have hzero : flat = 0 := Nat.lt_one_iff.mp h
      exact ⟨[], .nil, congrArg Except.ok hzero.symm⟩
  | cons extent extents ih =>
      rw [List.prod_cons] at hroom h
      have hpos : 0 < extent := Nat.pos_of_ne_zero fun hzero => by
        rw [hzero, Nat.zero_mul] at h
        omega
      have htail : extents.prod < Word.limit :=
        Nat.lt_of_le_of_lt (Nat.le_mul_of_pos_left _ hpos) hroom
      -- The first index is the remainder, and the quotient is the number in the box without it.
      rcases ih htail (Nat.div_lt_of_lt_mul h) with ⟨index, hinside, hflat⟩
      have hall : Inside (extent :: extents) (flat % extent :: index) :=
        .cons (Nat.mod_lt _ hpos) hinside
      rcases flatIndex_of_inside hall (by rw [List.prod_cons]; exact hroom) with ⟨number, hnumber⟩
      rcases flatIndex_cons_ok hnumber with ⟨rest, hrest, heq⟩
      rw [hflat, Except.ok.injEq] at hrest
      rw [← hrest, Nat.mod_add_div] at heq
      exact ⟨_, hall, heq ▸ hnumber⟩

/-- A place in rows of one length put together. -/
theorem getElem?_flatMap_rows {α β : Type} {row : α → List β} {n i : Nat} (hi : i < n)
    {xs : List α} (hrow : ∀ x ∈ xs, (row x).length = n) (k : Nat) :
    (xs.flatMap row)[i + n * k]? = xs[k]? >>= fun x => (row x)[i]? := by
  induction xs generalizing k with
  | nil => rfl
  | cons x rest ih =>
      have hlength := hrow x (List.mem_cons_self ..)
      rw [List.flatMap_cons]
      -- The place is in the first row, or in the rest with one row less before it.
      cases k with
      | zero =>
          rw [Nat.mul_zero, Nat.add_zero, List.getElem?_append_left (by omega),
            List.getElem?_cons_zero]
          rfl
      | succ k =>
          rw [List.getElem?_append_right (by rw [hlength, Nat.mul_succ]; omega), hlength,
            List.getElem?_cons_succ, ← ih (fun y hy => hrow y (List.mem_cons_of_mem _ hy)) k]
          congr 1
          rw [Nat.mul_succ]
          omega

/-- The elements of a box are listed by their numbers. -/
theorem rowMajor_flatIndex {extents index : List Nat} {flat : Nat} (h : Inside extents index)
    (hflat : flatIndex extents index = .ok flat) :
    (rowMajor (extents.map List.range))[flat]? = some index := by
  induction h generalizing flat with
  | nil =>
      rcases Except.ok.inj hflat with rfl
      rfl
  | @cons i extent index extents hi _ ih =>
      rcases flatIndex_cons_ok hflat with ⟨rest, hrest, rfl⟩
      have hrow : ∀ p ∈ rowMajor (extents.map List.range),
          ((List.range extent).map fun x => x :: p).length = extent := by
        intro p _
        rw [List.length_map, List.length_range]
      rw [List.map_cons, rowMajor_cons, getElem?_flatMap_rows hi hrow, ih hrest]
      change ((List.range extent).map fun x => x :: index)[i]? = _
      rw [List.getElem?_map, List.getElem?_range hi, Option.map_some]

namespace RegisterEntry

theorem coordinates_append (extents : List Nat) (extent : Nat) :
    coordinates (extents ++ [extent])
      = (coordinates extents).flatMap fun is => (List.range extent).map fun i => is ++ [i] := by
  induction extents with
  | nil => simp [coordinates, ← List.map_eq_flatMap]
  | cons e rest ih =>
      simp only [List.cons_append, coordinates, ih, List.map_flatMap, List.flatMap_assoc,
        List.flatMap_map, List.map_map, Function.comp_def]

/-- Going through reversed extents, the last one fastest, is going through the extents
    with the first one fastest. -/
theorem coordinates_reverse (extents : List Nat) :
    coordinates extents.reverse = (rowMajor (extents.map List.range)).map List.reverse := by
  induction extents with
  | nil => rfl
  | cons e rest ih =>
      rw [List.reverse_cons, coordinates_append, ih, List.map_cons, rowMajor_cons]
      simp only [List.flatMap_map, List.map_flatMap, List.map_map, Function.comp_def,
        List.reverse_cons]

variable {e : RegisterEntry}

/-- As many words as there are elements. -/
theorem words_ok {count : Nat} (h : e.words = .ok count) : count = e.extents.prod :=
  Word.product_ok h

theorem past_ok {past : Nat} (h : e.past = .ok past) :
    e.words = .ok e.extents.prod ∧ past = e.offset + 4 * e.extents.prod ∧ past < Word.limit := by
  rcases Fallible.bind_ok.mp h with ⟨bytes, hbytes, hadd⟩
  rcases Fallible.bind_ok.mp hbytes with ⟨count, hcount, hmul⟩
  have hsize := words_ok hcount
  have hsum := Word.add_eq_ok.mp hadd
  have hproduct := Word.mul_eq_ok.mp hmul
  refine ⟨hsize ▸ hcount, ?_, hsum.2 ▸ hsum.1⟩
  rw [← hsum.2, ← hproduct.2, hsize]

theorem length_elements : e.elements.length = e.extents.prod := by
  unfold elements
  split
  · rw [List.length_mapIdx, coordinates_reverse, List.length_map, length_rowMajor, List.map_map]
    simp only [Function.comp_def, List.length_range, List.map_id']
  · next harray =>
    have hnone : e.extents = [] := by simpa [isArray] using harray
    rw [hnone]
    rfl

/-- An element is listed at its number with its address and its name, which has the
    outermost coordinate first. -/
theorem elements_flatIndex {index : List Nat} {flat : Nat} (h : Inside e.extents index)
    (hflat : flatIndex e.extents index = .ok flat) :
    e.elements[flat]? = some (e.offset + 4 * flat, e.name ++ subscript index.reverse) := by
  unfold elements
  split
  · rw [List.getElem?_mapIdx, coordinates_reverse, List.getElem?_map, rowMajor_flatIndex h hflat]
    rfl
  · next harray =>
    have hnone : e.extents = [] := by simpa [isArray] using harray
    rw [hnone] at h hflat
    rcases List.forall₂_nil_right_iff.mp h with rfl
    rcases Except.ok.inj hflat with rfl
    rw [List.getElem?_cons_zero, List.reverse_nil, Nat.mul_zero, Nat.add_zero]
    exact congrArg some (Prod.ext rfl String.append_empty.symm)

/-- The addresses of an entry follow each other. -/
theorem address_of_getElem? {k : Nat} {element : Nat × String} (h : e.elements[k]? = some element) :
    element.1 = e.offset + 4 * k := by
  unfold elements at h
  split at h
  · rw [List.getElem?_mapIdx, Option.map_eq_some_iff] at h
    rcases h with ⟨index, _, rfl⟩
    rfl
  · rcases List.getElem?_eq_some_iff.mp h with ⟨hk, rfl⟩
    have hzero : k = 0 := Nat.lt_one_iff.mp hk
    subst hzero
    rfl

theorem map_fst_elements : e.elements.map Prod.fst
    = (List.range e.extents.prod).map fun k => e.offset + 4 * k := by
  refine List.ext_getElem? fun k => ?_
  rw [List.getElem?_map, List.getElem?_map]
  cases hk : e.elements[k]? with
  | none =>
      rw [List.getElem?_eq_none_iff, length_elements] at hk
      rw [List.getElem?_eq_none_iff.mpr (by rw [List.length_range]; exact hk)]
      rfl
  | some element =>
      have hlt := (List.getElem?_eq_some_iff.mp hk).1
      rw [length_elements] at hlt
      rw [List.getElem?_range hlt, Option.map_some, Option.map_some, address_of_getElem? hk]

end RegisterEntry

namespace RegisterMap

/-- The addresses of some entries. -/
def addresses (entries : List RegisterEntry) : List Nat :=
  entries.flatMap fun e => e.elements.map Prod.fst

/-- The addresses of entries that follow each other increase, all in the range of the
    map. -/
theorem addresses_of_validateFrom {m : RegisterMap} {past : Nat} {entries : List RegisterEntry}
    (h : m.validateFrom past entries = .ok ()) :
    (addresses entries).Pairwise (· < ·) ∧
      (∀ a ∈ addresses entries, past ≤ a ∧ a + 4 ≤ m.cursor) ∧
      ∀ e ∈ entries, ∃ next, e.past = .ok next := by
  induction entries generalizing past with
  | nil => exact ⟨.nil, List.forall_mem_nil _, List.forall_mem_nil _⟩
  | cons e rest ih =>
      unfold validateFrom at h
      split at h
      · exact absurd h (by simp [malformed])
      next hpast =>
      rcases Fallible.bind_ok.mp h with ⟨next, hnext, hrest⟩
      split at hrest
      · exact absurd hrest (by simp [malformed])
      next hcursor =>
      rcases ih hrest with ⟨hpairwise, hrange, hends⟩
      have hend := (RegisterEntry.past_ok hnext).2.1
      have hown : ∀ a ∈ e.elements.map Prod.fst, past ≤ a ∧ a + 4 ≤ next := by
        intro a ha
        rw [RegisterEntry.map_fst_elements] at ha
        rcases List.mem_map.mp ha with ⟨k, hk, rfl⟩
        have hlt := List.mem_range.mp hk
        omega
      have hsorted : (e.elements.map Prod.fst).Pairwise (· < ·) := by
        rw [RegisterEntry.map_fst_elements]
        refine List.pairwise_map.mpr (List.pairwise_lt_range.imp fun {j k} hjk => ?_)
        omega
      -- All addresses of this entry are below its end, and those of the others are not.
      refine ⟨?_, ?_, ?_⟩
      · rw [addresses, List.flatMap_cons, List.pairwise_append]
        refine ⟨hsorted, hpairwise, fun a ha b hb => ?_⟩
        have hfirst := hown a ha
        have hsecond := hrange b hb
        omega
      · intro a ha
        rw [addresses, List.flatMap_cons, List.mem_append] at ha
        rcases ha with ha | ha
        · have hfirst := hown a ha
          omega
        · have hsecond := hrange a ha
          omega
      · intro entry hentry
        rcases List.mem_cons.mp hentry with rfl | hentry
        · exact ⟨next, hnext⟩
        · exact hends entry hentry

end RegisterMap

end StencilRtl
