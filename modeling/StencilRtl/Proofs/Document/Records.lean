import Mathlib.Data.List.Forall2
import Mathlib.Data.List.Nodup
import StencilRtl.Kernel.Decode
import StencilRtl.Kernel.Encode
import StencilRtl.Proofs.Document.Values

/-!
# Records Read Back

What is read off a record some of whose fields are left out.

A record is written with the fields it has, so a field is a name and the document of its
value, if it is written at all. Names are different in every record, so looking one up
finds the document it was written with, or nothing.

How much a reader may rely on is the same for every document of a value: the text can be
read, every number has a value, and the document nests no deeper than the one with all
fields in it. That is `Abridges`, and it is passed up from the fields of a record.

## Main definitions

* `Json.written`: The members of a record with the fields that are written.
* `Json.Defaults`: What may be written of a field that has a default.
* `Json.Abridges`: A document that can be read and is no deeper than a full one.

## Theorems

* `Json.fields?_written`: The fields of a record are found by their names.
* `Json.variant?_written`: The tag and the fields of a variant are found.
* `Json.abridges_tagged`: A variant abridges the one its fields abridge.
-/

namespace StencilRtl

namespace Json

/-- The members of a record whose fields are written, or left out. -/
def written (fields : List (String × Option Json)) : List (String × Json) :=
  fields.filterMap fun f => f.2.map (Prod.mk f.1)

@[simp] theorem written_nil : written [] = [] := rfl

@[simp] theorem written_some (name : String) (j : Json) (fields : List (String × Option Json)) :
    written ((name, some j) :: fields) = (name, j) :: written fields := rfl

@[simp] theorem written_none (name : String) (fields : List (String × Option Json)) :
    written ((name, none) :: fields) = written fields := rfl

/-- The names that are written are some of the names of the fields. -/
theorem written_names (fields : List (String × Option Json)) :
    ((written fields).map Prod.fst).Sublist (fields.map Prod.fst) := by
  induction fields with
  | nil => exact List.Sublist.slnil
  | cons field fields ih =>
      rcases field with ⟨name, _ | j⟩
      · exact ih.cons name
      · exact ih.cons_cons name

/-- A name that no field has is not found. -/
theorem member?_eq_none {members : List (String × Json)} {name : String}
    (h : name ∉ members.map Prod.fst) : member? members name = none := by
  rw [member?, Option.map_eq_none_iff, List.find?_eq_none]
  intro m hm heq
  exact h (List.mem_map.mpr ⟨m, hm, of_decide_eq_true heq⟩)

/-- A field is found by its name, if it is written. -/
theorem member?_written {fields : List (String × Option Json)}
    (hnames : (fields.map Prod.fst).Nodup) {field : String × Option Json} (h : field ∈ fields) :
    member? (written fields) field.1 = field.2 := by
  induction fields with
  | nil => exact absurd h List.not_mem_nil
  | cons first fields ih =>
      rw [List.map_cons, List.nodup_cons] at hnames
      rcases List.mem_cons.mp h with rfl | h
      · rcases field with ⟨name, _ | j⟩
        · exact member?_eq_none fun hn => hnames.1 ((written_names fields).subset hn)
        · simp [member?]
      · have hne : first.1 ≠ field.1 := fun heq => hnames.1 (heq ▸ List.mem_map_of_mem h)
        rw [← ih hnames.2 h]
        rcases first with ⟨name, _ | j⟩
        · rfl
        · simp [member?, hne]

/-- No name is written twice. -/
theorem memberCount_written {fields : List (String × Option Json)}
    (hnames : (fields.map Prod.fst).Nodup) (name : String) :
    memberCount (written fields) name ≤ 1 := by
  have hcount := List.nodup_iff_count_le_one.mp (hnames.sublist (written_names fields)) name
  rw [List.count, List.countP_map] at hcount
  refine Nat.le_trans (Nat.le_of_eq (List.countP_congr ?_)) hcount
  intro m _
  simp

/-- The fields of a record are found by their names. -/
theorem fields?_written (names : List String) (fields : List (String × Option Json))
    (hnames : fields.map Prod.fst = names) (hnodup : names.Nodup) :
    fields? names (.object (written fields)) = some (fields.map Prod.snd) := by
  subst hnames
  have hcounts : ((fields.map Prod.fst).all fun name =>
      memberCount (written fields) name ≤ 1) = true :=
    List.all_eq_true.mpr fun name _ => decide_eq_true (memberCount_written hnodup name)
  rw [fields?, if_pos hcounts, List.map_map]
  exact congrArg some (List.map_congr_left fun f hf => member?_written hnodup hf)

/-- The tag of a variant is found, and the record beside it has the other members. -/
theorem variant?_tagged {inner : Bool} {variants : List String} {tag : String}
    {fields : List (String × Json)} (htag : tag ∈ variants)
    (hnode : "node" ∉ fields.map Prod.fst) :
    variant? inner variants (.tagged tag fields) = some (tag, .object fields) := by
  have hother : ∀ f ∈ fields, f.1 ≠ "node" :=
    fun f hf heq => hnode (List.mem_map.mpr ⟨f, hf, heq⟩)
  have hcount : memberCount (("node", .text tag) :: fields) "node" = 1 := by
    rw [memberCount, List.countP_cons_of_pos (by simp), List.countP_eq_zero.mpr]
    intro f hf
    simpa using hother f hf
  have hfirst : member? (("node", .text tag) :: fields) "node" = some (.text tag) := rfl
  have hrest : (("node", Json.text tag) :: fields).filter (fun m => m.1 ≠ "node") = fields := by
    rw [List.filter_cons_of_neg (by simp), List.filter_eq_self]
    intro f hf
    simpa using hother f hf
  rw [tagged, variant?, if_pos hcount, hfirst]
  simp only [Option.bind_eq_bind, Option.bind_some, variantOfTag?, if_pos htag, hrest]
  rfl

/-- The tag and the fields of a variant are found, when no variant has a field twice or a
    field called like the tag. -/
theorem variant?_written {variants : List String} {names : String → List String}
    (hproper : ∀ tag ∈ variants, (names tag).Nodup ∧ "node" ∉ names tag) (tag : String)
    (fields : List (String × Option Json)) (htag : tag ∈ variants)
    (hnames : fields.map Prod.fst = names tag) (inner : Bool) :
    variant? inner variants (.tagged tag (written fields)) = some (tag, .object (written fields))
      ∧ fields? (names tag) (.object (written fields)) = some (fields.map Prod.snd) := by
  have hnode : "node" ∉ (written fields).map Prod.fst := fun h =>
    (hproper tag htag).2 (hnames ▸ (written_names fields).subset h)
  exact ⟨variant?_tagged htag hnode, fields?_written _ _ hnames (hproper tag htag).1⟩

/-- What may be written of a field with a default: the document of its value,
    or nothing if the value is the default. -/
inductive Defaults {α : Type} (absent value : α) (document : Json) : Option Json → Prop where
  | kept : Defaults absent value document (some document)
  | omitted (h : value = absent) : Defaults absent value document none

/-- A field with a default is read back, whether it is written or not. -/
theorem Defaults.read {α : Type} {absent value : α} {document : Json} {field : Option Json}
    {read : Json → Option α} (h : Defaults absent value document field)
    (hread : read document = some value) : optional absent read field = some value := by
  cases h with
  | kept => exact hread
  | omitted h => rw [h, optional]

theorem nesting_le_of_mem {name : String} {j : Json} {fields : List (String × Option Json)}
    (h : (name, some j) ∈ fields) : j.nesting ≤ nestingOfMembers (written fields) := by
  induction fields with
  | nil => exact absurd h List.not_mem_nil
  | cons field fields ih =>
      rcases List.mem_cons.mp h with rfl | hrest
      · rw [written_some, nestingOfMembers]
        exact Nat.le_max_left _ _
      · rcases field with ⟨other, _ | k⟩
        · exact ih hrest
        · rw [written_some, nestingOfMembers]
          exact Nat.le_trans (ih hrest) (Nat.le_max_right _ _)

/-- What is written in a field nests less deeply than the variant. -/
theorem nesting_lt_levels {tag : String} (name : String) {j : Json}
    {fields : List (String × Option Json)} {levels : Nat} (h : (name, some j) ∈ fields)
    (hlevels : (tagged tag (written fields)).nesting < levels + 1) : j.nesting < levels := by
  have hmembers := nesting_le_of_mem h
  rw [tagged, nesting, nestingOfMembers] at hlevels
  omega

/-- What is written in the items of a field nests less deeply than the variant. -/
theorem nestingOfItems_lt_levels {tag : String} (name : String) {items : List Json}
    {fields : List (String × Option Json)} {levels : Nat}
    (h : (name, some (.list items)) ∈ fields)
    (hlevels : (tagged tag (written fields)).nesting < levels + 1) :
    nestingOfItems items < levels := by
  have hlist := nesting_lt_levels name h hlevels
  rw [nesting] at hlist
  omega

/-! ## Numbers -/

theorem word32?_nat (w : UInt32) : (nat w.toNat).word32? = some w := by
  have hw : w.toNat < 2 ^ 32 := w.toNat_lt
  have hsize : UInt64.size = 2 ^ 64 := rfl
  have hsize' : UInt32.size = 2 ^ 32 := rfl
  have hvalue := Numeral.integer?_ofNat (n := w.toNat) (by omega)
  rw [word32?, nat, intBetween?, hvalue]
  simp only [Option.bind_eq_bind, Option.bind_some]
  rw [if_pos (by omega)]
  simp [UInt32.ofNat_toNat]

theorem word64?_nat (w : UInt64) : (nat w.toNat).word64? = some w := by
  have hw : w.toNat < 2 ^ 64 := w.toNat_lt
  have hsize : UInt64.size = 2 ^ 64 := rfl
  have hvalue := Numeral.integer?_ofNat (n := w.toNat) (by omega)
  rw [word64?, nat, intBetween?, hvalue]
  simp only [Option.bind_eq_bind, Option.bind_some]
  rw [if_pos (by omega)]
  simp [UInt64.ofNat_toNat]

theorem signed64?_int (w : Int64) : (int w.toInt).signed64? = some w := by
  have hlow := w.minValue_le_toInt
  have hhigh := w.toInt_le
  have hmin : Int64.minValue.toInt = -(2 ^ 63) := by decide
  have hmax : Int64.maxValue.toInt = 2 ^ 63 - 1 := by decide
  have hvalue := Numeral.integer?_ofInt (i := w.toInt) (by omega) (by omega)
  rw [signed64?, int, intBetween?, hvalue]
  simp only [Option.bind_eq_bind, Option.bind_some]
  rw [if_pos (by omega)]
  simp [Int64.ofInt_toInt]

/-! ## Documents with fields left out -/

/-- A document that can be read and that nests no deeper than a full one. -/
structure Abridges (full j : Json) : Prop where
  proper : j.Proper
  readable : j.readable = true
  nesting_le : j.nesting ≤ full.nesting

theorem abridges_bool (value : Bool) : Abridges (.bool value) (.bool value) :=
  ⟨trivial, rfl, Nat.le_refl _⟩

theorem abridges_text (value : String) : Abridges (.text value) (.text value) :=
  ⟨trivial, rfl, Nat.le_refl _⟩

theorem abridges_null : Abridges .null .null :=
  ⟨trivial, rfl, Nat.le_refl _⟩

theorem abridges_nat {n : Nat} (h : n < UInt64.size) : Abridges (nat n) (nat n) := by
  refine ⟨Numeral.proper_ofNat n, ?_, Nat.le_refl _⟩
  · rw [nat, readable, Numeral.integer?_ofNat h]
    rfl

theorem abridges_int (w : Int64) : Abridges (int w.toInt) (int w.toInt) := by
  have hlow := w.minValue_le_toInt
  have hhigh := w.toInt_le
  have hmin : Int64.minValue.toInt = -(2 ^ 63) := by decide
  have hmax : Int64.maxValue.toInt = 2 ^ 63 - 1 := by decide
  refine ⟨Numeral.proper_ofInt w.toInt, ?_, Nat.le_refl _⟩
  · rw [int, readable, Numeral.integer?_ofInt (by omega) (by omega)]
    rfl

/-- What is written of a field abridges the document of its value, if it is written. -/
inductive FieldAbridges (full : Json) : Option Json → Prop where
  | omitted : FieldAbridges full none
  | kept {j : Json} (h : Abridges full j) : FieldAbridges full (some j)

theorem Defaults.abridges {α : Type} {absent value : α} {document : Json} {field : Option Json}
    (h : Defaults absent value document field) (hdocument : Abridges document document) :
    FieldAbridges document field := by
  cases h with
  | kept => exact .kept hdocument
  | omitted => exact .omitted

theorem abridges_items {fulls docs : List Json} (h : List.Forall₂ Abridges fulls docs) :
    ItemsProper docs ∧ itemsReadable docs = true ∧ nestingOfItems docs ≤ nestingOfItems fulls := by
  induction h with
  | nil => exact ⟨trivial, rfl, Nat.le_refl _⟩
  | cons hd _ ih =>
      refine ⟨⟨hd.proper, ih.1⟩, ?_, ?_⟩
      · rw [itemsReadable, hd.readable, ih.2.1]
        rfl
      · have hle := hd.nesting_le
        have hle' := ih.2.2
        rw [nestingOfItems, nestingOfItems]
        omega

theorem abridges_list {fulls docs : List Json} (h : List.Forall₂ Abridges fulls docs) :
    Abridges (.list fulls) (.list docs) := by
  have hitems := abridges_items h
  exact ⟨hitems.1, hitems.2.1, Nat.succ_le_succ hitems.2.2⟩

/-- A field that is left out only makes an object nest less. -/
theorem abridges_members {fulls : List (String × Json)} {fields : List (String × Option Json)}
    (h : List.Forall₂ (fun full field => FieldAbridges full.2 field.2) fulls fields) :
    MembersProper (written fields) ∧ membersReadable (written fields) = true
      ∧ nestingOfMembers (written fields) ≤ nestingOfMembers fulls := by
  induction h with
  | nil => exact ⟨trivial, rfl, Nat.le_refl _⟩
  | @cons full field _ _ hd _ ih =>
      rcases full with ⟨_, full⟩
      rcases field with ⟨name, field⟩
      cases hd with
      -- A field that is left out adds nothing on its side, and to the other side only depth.
      | omitted =>
          rw [written_none, nestingOfMembers]
          exact ⟨ih.1, ih.2.1, Nat.le_trans ih.2.2 (Nat.le_max_right _ _)⟩
      | kept hd =>
          refine ⟨⟨hd.proper, ih.1⟩, ?_, ?_⟩
          · rw [written_some, membersReadable, hd.readable, ih.2.1]
            rfl
          · have hle : _ ≤ full.nesting := hd.nesting_le
            have hle' := ih.2.2
            rw [written_some, nestingOfMembers, nestingOfMembers]
            omega

theorem abridges_object {fulls : List (String × Json)} {fields : List (String × Option Json)}
    (h : List.Forall₂ (fun full field => FieldAbridges full.2 field.2) fulls fields) :
    Abridges (.object fulls) (.object (written fields)) := by
  have hmembers := abridges_members h
  exact ⟨hmembers.1, hmembers.2.1, Nat.succ_le_succ hmembers.2.2⟩

/-- A variant abridges the one whose fields its own fields abridge. -/
theorem abridges_tagged {tag : String} {fulls : List (String × Json)}
    {fields : List (String × Option Json)}
    (h : List.Forall₂ (fun full field => FieldAbridges full.2 field.2) fulls fields) :
    Abridges (.tagged tag fulls) (.tagged tag (written fields)) := by
  have hall : List.Forall₂ (fun full field => FieldAbridges full.2 field.2)
      (("node", .text tag) :: fulls) (("node", some (.text tag)) :: fields) :=
    .cons (.kept (abridges_text tag)) h
  exact abridges_object hall

end Json

end StencilRtl
