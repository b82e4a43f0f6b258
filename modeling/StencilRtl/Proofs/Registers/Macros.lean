import StencilRtl.Emit.RegisterHeader
import StencilRtl.Proofs.Registers.Layout
import StencilRtl.Proofs.Sharing.Names

/-!
# Constants Made from Names

Which elements of parameters have the same constant.

A constant is a name in capitals, with an underscore for whatever is no letter
and no digit. The coordinates of an element survive that, since a number has no
underscore in it, but where the name ends and the coordinates begin does not. So
an element can be told from the others of its parameter and, with one exception,
from those of a parameter with another name. The exception is a name that looks
like another one with some of its outermost coordinates, and then the elements
meet that agree in the coordinates that are left.

## Main definitions

* `RegisterEntry.labels`: The names of the elements of a parameter.
* `RegisterEntry.Meets`: Two parameters of which elements have the same constant.
* `RegisterMap.Unambiguous`: No elements of a map have the same constant.

## Theorems

* `macroName_element_eq_iff`: When the constants of two elements are the same.
* `RegisterEntry.disjoint_macros_iff`: When two parameters have no constant in common.
* `RegisterMap.unambiguous_iff`: When all constants of a map are different.
-/

namespace StencilRtl

theorem macroName_append (a b : String) : macroName (a ++ b) = macroName a ++ macroName b := by
  refine String.toList_inj.mp ?_
  simp [macroName]

/-- Digits have no capitals. -/
theorem toUpper_of_isDigit {c : Char} (h : c.isDigit = true) : c.toUpper = c := by
  unfold Char.toUpper
  split
  · next hlower =>
    simp only [Char.isDigit, Bool.and_eq_true, decide_eq_true_eq, ge_iff_le,
      UInt32.le_iff_toNat_le] at h hlower
    simp at h hlower
    omega
  · rfl

/-- A capital is a letter. -/
theorem isAlphanum_toUpper {c : Char} (h : c.isAlphanum = true) : c.toUpper.isAlphanum = true := by
  unfold Char.toUpper
  split
  · next hlower =>
    rcases hlower with ⟨hlow, hhigh⟩
    rw [UInt32.le_iff_toNat_le] at hlow hhigh
    have hupper : c.val + ('A'.val - 'a'.val) ≥ 'A'.val ∧
        c.val + ('A'.val - 'a'.val) ≤ 'Z'.val := by
      rw [ge_iff_le, UInt32.le_iff_toNat_le, UInt32.le_iff_toNat_le, UInt32.toNat_add]
      simp at hlow hhigh ⊢
      omega
    exact Bool.or_eq_true_iff.mpr (.inl (Bool.or_eq_true_iff.mpr (.inl (decide_eq_true hupper))))
  · exact h

/-- A constant has letters, digits and underscores. -/
theorem isMacroChar_of_mem {name : String} {c : Char} (h : c ∈ (macroName name).toList) :
    c = '_' ∨ c.isAlphanum = true := by
  rw [macroName, String.toList_ofList, List.mem_map] at h
  rcases h with ⟨d, _, rfl⟩
  split
  · next hd => exact .inr (isAlphanum_toUpper hd)
  · exact .inl rfl

/-- A number is its own constant. -/
theorem macroName_toString (i : Nat) : macroName (toString i) = toString i := by
  refine String.toList_inj.mp ?_
  have hdigit : ∀ c ∈ (toString i).toList, c.isDigit = true := fun c hc => isDigit_of_mem hc
  have hkept : (toString i).toList.filter (· != ']') = (toString i).toList := by
    refine List.filter_eq_self.mpr fun c hc => ?_
    rw [bne_iff_ne]
    rintro rfl
    exact absurd (hdigit _ hc) (by decide)
  rw [macroName, String.toList_ofList, hkept]
  refine (List.map_congr_left fun c hc => ?_).trans (List.map_id _)
  have hkept : isIdentifierChar c = true := Bool.or_eq_true_iff.mpr (.inr (hdigit c hc))
  rw [if_pos hkept, toUpper_of_isDigit (hdigit c hc), id]

/-- A coordinate behind a name becomes a word behind the constant. -/
theorem macroName_coordinate (i : Nat) : macroName s!"[{i}]" = "_" ++ toString i := by
  have hparts : s!"[{i}]" = "[" ++ toString i ++ "]" := rfl
  rw [hparts, macroName_append, macroName_append, macroName_toString]
  have hopen : macroName "[" = "_" := by decide
  have hclose : macroName "]" = "" := by decide
  rw [hopen, hclose, String.append_empty]

theorem subscript_append (index index' : List Nat) :
    RegisterEntry.subscript (index ++ index')
      = RegisterEntry.subscript index ++ RegisterEntry.subscript index' := by
  simp [RegisterEntry.subscript, String.join_append]

/-- An element with its innermost coordinate taken off. Coordinates are listed from the
    innermost one on. -/
theorem macroName_element_cons (name : String) (i : Nat) (index : List Nat) :
    macroName (name ++ RegisterEntry.subscript (i :: index).reverse)
      = macroName (name ++ RegisterEntry.subscript index.reverse) ++ ("_" ++ toString i) := by
  have hone : RegisterEntry.subscript [i] = s!"[{i}]" := by simp [RegisterEntry.subscript]
  rw [List.reverse_cons, subscript_append, hone, ← String.append_assoc, macroName_append,
    macroName_coordinate]

/-- What stands behind the last separator, and what stands before it. -/
theorem eq_of_append_cons {c : Char} {xs ys ds es : List Char} (hds : c ∉ ds) (hes : c ∉ es)
    (h : xs ++ c :: ds = ys ++ c :: es) : xs = ys ∧ ds = es := by
  rcases List.append_eq_append_iff.mp h with ⟨as, rfl, hrest⟩ | ⟨as, rfl, hrest⟩
  · cases as with
    | nil => exact ⟨(List.append_nil _).symm, (List.cons.inj hrest).2⟩
    | cons a as =>
        refine absurd ?_ hds
        rw [(List.cons.inj hrest).2]
        exact List.mem_append_right _ (List.mem_cons_self ..)
  · cases as with
    | nil => exact ⟨List.append_nil _, (List.cons.inj hrest).2.symm⟩
    | cons a as =>
        refine absurd ?_ hes
        rw [(List.cons.inj hrest).2]
        exact List.mem_append_right _ (List.mem_cons_self ..)

/-- A constant tells its last coordinate. -/
theorem eq_of_coordinate {a b : String} {i j : Nat}
    (h : a ++ ("_" ++ toString i) = b ++ ("_" ++ toString j)) : a = b ∧ i = j := by
  have hchars := congrArg String.toList h
  simp only [String.toList_append] at hchars
  rcases eq_of_append_cons (unsplit_toString i) (unsplit_toString j) hchars with ⟨hab, hij⟩
  exact ⟨String.toList_inj.mp hab, Nat.repr_injective (String.toList_inj.mp hij)⟩

/-- Outer coordinates may as well belong to the name. -/
theorem macroName_element_append {a b : String} {outer : List Nat}
    (h : macroName b = macroName (a ++ RegisterEntry.subscript outer.reverse)) (inner : List Nat) :
    macroName (a ++ RegisterEntry.subscript (inner ++ outer).reverse)
      = macroName (b ++ RegisterEntry.subscript inner.reverse) := by
  rw [List.reverse_append, subscript_append, ← String.append_assoc, macroName_append, ← h,
    ← macroName_append]

/-- Two elements have the same constant just if one of them has the coordinates of the
    other and more outside of them, and the other's name looks like its own with those
    that are more. -/
theorem macroName_element_eq_iff {a b : String} {index index' : List Nat} :
    macroName (a ++ RegisterEntry.subscript index.reverse)
        = macroName (b ++ RegisterEntry.subscript index'.reverse) ↔
      (∃ outer, index = index' ++ outer ∧
        macroName b = macroName (a ++ RegisterEntry.subscript outer.reverse)) ∨
      ∃ outer, index' = index ++ outer ∧
        macroName a = macroName (b ++ RegisterEntry.subscript outer.reverse) := by
  have hnone : ∀ name : String, name ++ RegisterEntry.subscript [].reverse = name :=
    fun _ => String.append_empty
  refine ⟨fun h => ?_, ?_⟩
  -- The constants end in the innermost coordinates, so these are taken off one by one.
  · induction index generalizing index' with
    | nil => exact .inr ⟨index', rfl, by rwa [hnone] at h⟩
    | cons i index ih =>
        cases index' with
        | nil => exact .inl ⟨i :: index, rfl, by rw [hnone] at h; exact h.symm⟩
        | cons j index' =>
            rw [macroName_element_cons, macroName_element_cons] at h
            rcases eq_of_coordinate h with ⟨hrest, rfl⟩
            rcases ih hrest with ⟨outer, rfl, hb⟩ | ⟨outer, rfl, ha⟩
            · exact .inl ⟨outer, rfl, hb⟩
            · exact .inr ⟨outer, rfl, ha⟩
  · rintro (⟨outer, rfl, hb⟩ | ⟨outer, rfl, ha⟩)
    · exact macroName_element_append hb index'
    · exact (macroName_element_append ha index).symm

/-- Within a parameter the elements have different constants. -/
theorem macroName_element_injective {name : String} {index index' : List Nat}
    (h : macroName (name ++ RegisterEntry.subscript index.reverse)
      = macroName (name ++ RegisterEntry.subscript index'.reverse)) : index = index' := by
  -- A name does not grow by coordinates that leave its constant alone.
  have hempty : ∀ outer : List Nat,
      macroName name = macroName (name ++ RegisterEntry.subscript outer.reverse) → outer = [] := by
    intro outer houter
    cases outer with
    | nil => rfl
    | cons i outer =>
        rw [macroName_element_cons, macroName_append] at houter
        have hlength := congrArg (fun s => s.toList.length) houter
        simp at hlength
  rcases macroName_element_eq_iff.mp h with ⟨outer, rfl, hsame⟩ | ⟨outer, rfl, hsame⟩
  · rw [hempty outer hsame, List.append_nil]
  · rw [hempty outer hsame, List.append_nil]

namespace RegisterEntry

/-- The names of the elements. -/
def labels (e : RegisterEntry) : List String := e.elements.map Prod.snd

/-- The constants of the elements, without what they have in common. -/
def macros (e : RegisterEntry) : List String := e.labels.map macroName

/-- A parameter of more dimensions has an element with the constant of one of another
    parameter. The other one is called like the first with some outermost coordinates,
    and has as many dimensions as are left. -/
def Meets (e e' : RegisterEntry) : Prop :=
  ∃ inner outer, Inside e.extents (inner ++ outer) ∧ Inside e'.extents inner ∧
    macroName e'.name = macroName (e.name ++ subscript outer.reverse)

variable {e e' : RegisterEntry}

theorem labels_eq : e.labels = (rowMajor (e.extents.map List.range)).map fun index =>
    e.name ++ subscript index.reverse := by
  have hall : e.labels = (coordinates e.extents.reverse).map fun index =>
      e.name ++ subscript index := by
    unfold labels elements
    split
    · refine List.ext_getElem? fun k => ?_
      simp [List.getElem?_mapIdx, Function.comp_def]
    · next harray =>
      have hnone : e.extents = [] := by simpa [isArray] using harray
      rw [hnone]
      exact congrArg (fun name => [name]) String.append_empty.symm
  rw [hall, coordinates_reverse, List.map_map]
  rfl

/-- A parameter has an element at each place of its box. -/
theorem mem_macros {x : String} : x ∈ e.macros ↔
    ∃ index, Inside e.extents index ∧ x = macroName (e.name ++ subscript index.reverse) := by
  have hinside : ∀ index, index ∈ rowMajor (e.extents.map List.range) ↔
      Inside e.extents index := by
    intro index
    rw [mem_rowMajor, List.forall₂_map_right_iff, Inside]
    simp only [List.mem_range]
  rw [macros, labels_eq, List.map_map, List.mem_map]
  simp only [hinside, Function.comp_apply, eq_comm (a := x)]

theorem nodup_macros : e.macros.Nodup := by
  have hplaces : (rowMajor (e.extents.map List.range)).Nodup := by
    have hsorted : (rowMajor (e.extents.map List.range)).Pairwise fun p q =>
        p.reverse < q.reverse :=
      pairwise_rowMajor (List.forall_mem_map.mpr fun _ _ => List.pairwise_lt_range)
    exact hsorted.imp fun hlt heq => by
      rw [heq] at hlt
      exact List.lt_irrefl _ hlt
  rw [macros, labels_eq, List.map_map]
  exact hplaces.map fun _ _ h => macroName_element_injective h

/-- Two parameters have no constant in common just if neither meets the other. -/
theorem disjoint_macros_iff : e.macros.Disjoint e'.macros ↔ ¬ e.Meets e' ∧ ¬ e'.Meets e := by
  refine ⟨fun h => ⟨?_, ?_⟩, fun ⟨h, h'⟩ => ?_⟩
  · rintro ⟨inner, outer, hinside, hinside', hname⟩
    refine h (mem_macros.mpr ⟨_, hinside, rfl⟩) (mem_macros.mpr ⟨inner, hinside', ?_⟩)
    exact macroName_element_append hname inner
  · rintro ⟨inner, outer, hinside, hinside', hname⟩
    refine h (mem_macros.mpr ⟨inner, hinside', rfl⟩) (mem_macros.mpr ⟨_, hinside, ?_⟩)
    exact (macroName_element_append hname inner).symm
  -- If two elements had one constant, the longer coordinates would tell which one meets the other.
  · intro x hx hx'
    rcases mem_macros.mp hx with ⟨index, hinside, rfl⟩
    rcases mem_macros.mp hx' with ⟨index', hinside', hsame⟩
    rcases macroName_element_eq_iff.mp hsame with ⟨outer, rfl, hname⟩ | ⟨outer, rfl, hname⟩
    · exact h ⟨index', outer, hinside, hinside', hname⟩
    · exact h' ⟨index, outer, hinside', hinside, hname⟩

/-- The constant of an element of an array has an underscore in it. -/
theorem mem_macros_of_unsplit {word : String} (h : Unsplit word) :
    word ∈ e.macros ↔ e.extents = [] ∧ macroName e.name = word := by
  rw [mem_macros]
  refine ⟨?_, ?_⟩
  · rintro ⟨index, hinside, rfl⟩
    cases index with
    | nil =>
        exact ⟨List.forall₂_nil_left_iff.mp hinside, congrArg macroName String.append_empty.symm⟩
    | cons i index =>
        refine absurd ?_ h
        rw [macroName_element_cons]
        simp
  · rintro ⟨hscalar, rfl⟩
    exact ⟨[], hscalar ▸ .nil, congrArg macroName String.append_empty.symm⟩

end RegisterEntry

namespace RegisterMap

/-- The constants of all elements, without what they have in common. -/
def macros (m : RegisterMap) : List String := m.entries.flatMap RegisterEntry.macros

/-- No two parameters meet, and no scalar is called like a register that is always there. -/
structure Unambiguous (m : RegisterMap) : Prop where
  apart : m.entries.Pairwise fun e e' => ¬ e.Meets e' ∧ ¬ e'.Meets e
  own : ∀ e ∈ m.entries, e.extents = [] → macroName e.name ≠ "CTRL" ∧ macroName e.name ≠ "STATUS"

variable {m : RegisterMap}

theorem unambiguous_iff :
    m.Unambiguous ↔ m.macros.Nodup ∧ "CTRL" ∉ m.macros ∧ "STATUS" ∉ m.macros := by
  have hmem : ∀ word, Unsplit word → (word ∈ m.macros ↔
      ∃ e ∈ m.entries, e.extents = [] ∧ macroName e.name = word) := by
    intro word hword
    simp only [macros, List.mem_flatMap, RegisterEntry.mem_macros_of_unsplit hword]
  have hapart : m.macros.Nodup ↔ m.entries.Pairwise fun e e' => ¬ e.Meets e' ∧ ¬ e'.Meets e := by
    rw [macros, List.nodup_flatMap, and_iff_right fun e _ => e.nodup_macros]
    exact List.Pairwise.iff fun _ _ => RegisterEntry.disjoint_macros_iff
  rw [hapart, hmem "CTRL" (by unfold Unsplit; decide), hmem "STATUS" (by unfold Unsplit; decide)]
  refine ⟨fun h => ⟨h.apart, ?_, ?_⟩, fun ⟨h, hctrl, hstatus⟩ => ⟨h, fun e he hscalar => ?_⟩⟩
  · rintro ⟨e, he, hscalar, hname⟩
    exact (h.own e he hscalar).1 hname
  · rintro ⟨e, he, hscalar, hname⟩
    exact (h.own e he hscalar).2 hname
  · exact ⟨fun hname => hctrl ⟨e, he, hscalar, hname⟩, fun hname => hstatus ⟨e, he, hscalar, hname⟩⟩

end RegisterMap

end StencilRtl
