import StencilRtl.Proofs.Sharing.Names

/-!
# Numbered Names

Names that are made from numbers are different.

What a module declares for each of its results, consumers or dimensions is numbered: between a
beginning without digits and an ending that is none stands a number. So a name can be taken
apart again. What stands before its first digit is the beginning, the digits behind it are the
number, and the rest is the ending. Two numbered names of which one of these is different are
different, and so is a name whose part before the first digit is not the beginning.

## Main definitions

* `stem`: What stands before the first digit of a name.
* `Frame`, `numbered`: Beginnings and endings, and numbered names.
* `Telling`: Names and frames that are told apart.

## Theorems

* `Frame.name_injective`: A numbered name tells its number and its frame.
* `nodup_of_telling`: Names and numbered names are different.
-/

namespace StencilRtl

/-- What stands before the first digit of a name. -/
def stem (name : String) : List Char := name.toList.takeWhile fun c => !c.isDigit

/-- What stands around the number in a name. -/
structure Frame where
  beginning : String
  ending : String
  deriving DecidableEq, Repr

namespace Frame

/-- The name with a number in it. -/
def name (f : Frame) (k : Nat) : String := f.beginning ++ toString k ++ f.ending

/-- The number can be found: there is no digit before it and none right behind it. -/
def Clean (f : Frame) : Prop :=
  f.beginning.toList.all (fun c => !c.isDigit) ∧ f.ending.toList.head?.all fun c => !c.isDigit

instance (f : Frame) : Decidable f.Clean := inferInstanceAs (Decidable (_ ∧ _))

variable {f g : Frame} {k l : Nat}

theorem toList_name (f : Frame) (k : Nat) :
    (f.name k).toList = f.beginning.toList ++ ((toString k).toList ++ f.ending.toList) := by
  rw [name, String.toList_append, String.toList_append, List.append_assoc]

theorem stem_name (hf : f.Clean) : stem (f.name k) = f.beginning.toList := by
  have hdigit : ((toString k).toList ++ f.ending.toList).takeWhile (fun c => !c.isDigit) = [] := by
    cases hk : (toString k).toList with
    | nil => exact absurd (String.toList_inj.mp hk) Nat.repr_ne_empty
    | cons d rest =>
        have hd : d.isDigit = true := isDigit_of_mem (hk ▸ List.mem_cons_self ..)
        rw [List.cons_append, List.takeWhile_cons_of_neg (by simp [hd])]
  rw [stem, toList_name, List.takeWhile_append_of_pos fun c => List.all_eq_true.mp hf.1 c, hdigit,
    List.append_nil]

/-- Behind the beginning the number is read as far as there are digits. -/
theorem takeWhile_digits (hf : f.Clean) :
    ((toString k).toList ++ f.ending.toList).takeWhile Char.isDigit = (toString k).toList := by
  rw [List.takeWhile_append_of_pos fun c hc => isDigit_of_mem hc]
  cases hending : f.ending.toList with
  | nil => rw [List.takeWhile_nil, List.append_nil]
  | cons c rest =>
      have hc := hf.2
      rw [hending, List.head?_cons, Option.all_some, Bool.not_eq_true'] at hc
      rw [List.takeWhile_cons_of_neg (by simp [hc]), List.append_nil]

/-- A numbered name tells its number and its frame. -/
theorem name_injective (hf : f.Clean) (hg : g.Clean) (h : f.name k = g.name l) :
    k = l ∧ f = g := by
  have hbeginning : f.beginning = g.beginning := by
    refine String.toList_inj.mp ?_
    rw [← stem_name hf, h, stem_name hg]
  have hrest : (toString k).toList ++ f.ending.toList
      = (toString l).toList ++ g.ending.toList := by
    have hchars := congrArg String.toList h
    rw [toList_name, toList_name, hbeginning] at hchars
    exact List.append_cancel_left hchars
  -- What is left begins with the number and shows where it ends.
  have hnumber : (toString k).toList = (toString l).toList := by
    rw [← takeWhile_digits hf, hrest, takeWhile_digits hg]
  have hending : f.ending = g.ending := by
    rw [hnumber] at hrest
    exact String.toList_inj.mp (List.append_cancel_left hrest)
  refine ⟨Nat.repr_injective (String.toList_inj.mp hnumber), ?_⟩
  rw [Frame.mk.injEq]
  exact ⟨hbeginning, hending⟩

end Frame

/-- The names that some frames have for each number. -/
def numbered (count : Nat) (frames : List Frame) : List String :=
  (List.range count).flatMap fun k => frames.map fun f => f.name k

/-- The names of several families of frames, each of which has numbers of its own. -/
def families (counts : List Nat) (frames : List (List Frame)) : List String :=
  (counts.zip frames).flatMap fun family => numbered family.1 family.2

/-- Names without numbers and families of frames are told apart. -/
def Telling (names : List String) (frames : List (List Frame)) : Prop :=
  names.Nodup ∧ frames.flatten.Nodup ∧ (∀ f ∈ frames.flatten, f.Clean) ∧
    ∀ name ∈ names, ∀ f ∈ frames.flatten, stem name ≠ f.beginning.toList

instance (names : List String) (frames : List (List Frame)) : Decidable (Telling names frames) :=
  inferInstanceAs (Decidable (_ ∧ _))

theorem mem_numbered {count : Nat} {frames : List Frame} {name : String} :
    name ∈ numbered count frames ↔ ∃ k < count, ∃ f ∈ frames, f.name k = name := by
  rw [numbered, List.mem_flatMap]
  simp only [List.mem_range, List.mem_map]

theorem mem_families {counts : List Nat} {frames : List (List Frame)} {name : String}
    (h : name ∈ families counts frames) : ∃ k, ∃ f ∈ frames.flatten, f.name k = name := by
  rcases List.mem_flatMap.mp h with ⟨family, hfamily, h⟩
  rcases mem_numbered.mp h with ⟨k, _, f, hf, rfl⟩
  exact ⟨k, f, List.mem_flatten.mpr ⟨_, (List.of_mem_zip hfamily).2, hf⟩, rfl⟩

theorem nodup_numbered {count : Nat} {frames : List Frame} (h : frames.Nodup)
    (hclean : ∀ f ∈ frames, f.Clean) : (numbered count frames).Nodup := by
  refine List.nodup_flatMap.mpr ⟨fun k _ => h.map_on fun f hf g hg hname =>
    (Frame.name_injective (hclean f hf) (hclean g hg) hname).2, ?_⟩
  refine List.nodup_range.imp fun {k l} hne => ?_
  rintro name hk hl
  rcases List.mem_map.mp hk with ⟨f, hf, rfl⟩
  rcases List.mem_map.mp hl with ⟨g, hg, hname⟩
  exact hne (Frame.name_injective (hclean f hf) (hclean g hg) hname.symm).1

/-- Families of frames that have no frame in common. -/
theorem nodup_families {counts : List Nat} {frames : List (List Frame)} (h : frames.flatten.Nodup)
    (hclean : ∀ f ∈ frames.flatten, f.Clean) : (families counts frames).Nodup := by
  induction frames generalizing counts with
  | nil =>
      rw [families, List.zip_nil_right]
      exact List.nodup_nil
  | cons own rest ih =>
      cases counts with
      | nil => exact List.nodup_nil
      | cons count counts =>
          rw [List.flatten_cons] at h hclean
          rcases List.nodup_append.mp h with ⟨hown, hrest, hapart⟩
          rcases List.forall_mem_append.mp hclean with ⟨hcleanOwn, hcleanRest⟩
          refine List.nodup_append.mpr ⟨nodup_numbered hown hcleanOwn, ih hrest hcleanRest, ?_⟩
          -- Two families may have a number in common, so it is their frames that differ.
          rintro name hname _ hother rfl
          rcases mem_numbered.mp hname with ⟨k, _, f, hf, rfl⟩
          rcases mem_families hother with ⟨l, g, hg, hsame⟩
          exact hapart f hf g hg
            (Frame.name_injective (hcleanOwn f hf) (hcleanRest g hg) hsame.symm).2

/-- Names and numbered names that are told apart are different. -/
theorem nodup_of_telling {names : List String} {frames : List (List Frame)}
    (h : Telling names frames) (counts : List Nat) : (names ++ families counts frames).Nodup := by
  rcases h with ⟨hnames, hframes, hclean, hstems⟩
  refine List.nodup_append.mpr ⟨hnames, nodup_families hframes hclean, ?_⟩
  rintro name hname _ hother rfl
  rcases mem_families hother with ⟨k, f, hf, rfl⟩
  exact hstems _ hname f hf (Frame.stem_name (hclean f hf))

/-- The same for one family, -/
theorem nodup_append_numbered {names : List String} {frames : List Frame}
    (h : Telling names [frames]) (count : Nat) : (names ++ numbered count frames).Nodup := by
  simpa [families] using nodup_of_telling h [count]

/-- and for two of them. -/
theorem nodup_append_numbered_numbered {names : List String} {frames frames' : List Frame}
    (h : Telling names [frames, frames']) (count count' : Nat) :
    (names ++ (numbered count frames ++ numbered count' frames')).Nodup := by
  simpa [families] using nodup_of_telling h [count, count']

end StencilRtl
