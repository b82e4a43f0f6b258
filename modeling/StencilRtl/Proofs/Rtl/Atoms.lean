import Mathlib.Data.List.Basic
import StencilRtl.Name
import StencilRtl.Rtl.Expr

/-!
# Atoms

Texts that can be put into other texts without regrouping.

What is generated is put together from texts, with no regard to the precedence of operators.
That works because every part is an atom: its brackets are balanced and properly nested, and
outside of all of them stands nothing that could be taken for an operator or for the blank
around one.

Inside brackets a text may be less than an atom. A coordinate that is a negative number is
written as it is, so what is asked of it is only that its own brackets are balanced.

## Main definitions

* `Balanced`: Brackets are closed in order, each by one of its own kind.
* `IsAtom`: Outside of all brackets there are no blanks and no operators.
* `scan`: Characters read from left to right, with the brackets that are open.

## Theorems

* `IsAtom.balanced`: An atom is balanced.
* `IsAtom.scan`, `isAtom_of_scan`: Atoms are what a scan accepts.
* `isAtom_of_word`, `IsAtom.enclosed`: Names, numerals and groups are atoms.
* `Expr.isAtomic_binary` and the like: Forms of expressions are atoms.
-/

namespace StencilRtl

/-- Numerals have digits only. -/
theorem isDigit_of_mem {d : Char} {a : Nat} (h : d ∈ (toString a).toList) : d.isDigit = true := by
  refine Nat.isDigit_of_mem_toDigits (by decide : 0 < 10) (Nat.le_refl _) (n := a) ?_
  simpa using h

namespace Rtl

/-- The kinds of brackets. -/
def brackets : List (Char × Char) := [('(', ')'), ('[', ']'), ('\x7b', '\x7d')]

/-- A character that is no bracket. -/
def IsPlain (c : Char) : Prop := c ∉ brackets.map Prod.fst ++ brackets.map Prod.snd

instance (c : Char) : Decidable (IsPlain c) := inferInstanceAs (Decidable (c ∉ _))

/-- Blanks and the characters of operators. -/
def separators : List Char :=
  [' ', '+', '-', '*', '/', '%', '=', '!', '<', '>', '&', '|', '^', '~', '?', ':']

theorem isPlain_of_separator : ∀ c ∈ separators, IsPlain c :=
  List.forall_iff_forall_mem.mp (by decide)

/-- All the operators of the hardware language are written with these characters. -/
theorem separator_of_symbol (operator : Operator) :
    ∀ c ∈ operator.symbol.toList, c ∈ separators := by
  refine List.forall_iff_forall_mem.mp ?_
  cases operator <;> decide

/-- Characters whose brackets are closed in order, each by one of its own kind. -/
inductive Balanced : List Char → Prop
  | nil : Balanced []
  | char {c : Char} {rest : List Char} (hc : IsPlain c) (hrest : Balanced rest) :
      Balanced (c :: rest)
  | group {opening closing : Char} {inside rest : List Char}
      (hkind : (opening, closing) ∈ brackets) (hinside : Balanced inside)
      (hrest : Balanced rest) : Balanced (opening :: (inside ++ closing :: rest))

/-- Characters that are balanced, and outside of all brackets no blanks and no operators. -/
inductive IsAtom : List Char → Prop
  | nil : IsAtom []
  | char {c : Char} {rest : List Char} (hc : IsPlain c) (hseparator : c ∉ separators)
      (hrest : IsAtom rest) : IsAtom (c :: rest)
  | group {opening closing : Char} {inside rest : List Char}
      (hkind : (opening, closing) ∈ brackets) (hinside : Balanced inside)
      (hrest : IsAtom rest) : IsAtom (opening :: (inside ++ closing :: rest))

variable {text text' : List Char}

namespace Balanced

theorem append (h : Balanced text) (h' : Balanced text') : Balanced (text ++ text') := by
  induction h with
  | nil => exact h'
  | char hc _ ih => exact .char hc ih
  | group hkind hinside _ _ ih =>
      rw [List.cons_append, List.append_assoc, List.cons_append]
      exact .group hkind hinside ih

theorem of_plain (h : text.Forall IsPlain) : Balanced text := by
  induction text with
  | nil => exact .nil
  | cons c rest ih =>
      rw [List.forall_cons] at h
      exact .char h.1 (ih h.2)

end Balanced

namespace IsAtom

theorem balanced (h : IsAtom text) : Balanced text := by
  induction h with
  | nil => exact .nil
  | char hc _ _ ih => exact .char hc ih
  | group hkind hinside _ ih => exact .group hkind hinside ih

theorem append (h : IsAtom text) (h' : IsAtom text') : IsAtom (text ++ text') := by
  induction h with
  | nil => exact h'
  | char hc hseparator _ ih => exact .char hc hseparator ih
  | group hkind hinside _ ih =>
      rw [List.cons_append, List.append_assoc, List.cons_append]
      exact .group hkind hinside ih

/-- A group of its own is an atom, whatever it holds. -/
theorem enclosed {opening closing : Char} (hkind : (opening, closing) ∈ brackets)
    (h : Balanced text) : IsAtom (opening :: (text ++ [closing])) :=
  .group hkind h .nil

end IsAtom

section Scan

/-- Whether characters are an atom, if the brackets that are open have to be closed by
    `expected`, the innermost one first. -/
def scan : List Char → List Char → Bool
  | expected, [] => expected.isEmpty
  | expected, c :: rest =>
      match brackets.lookup c with
      | some closing => scan (closing :: expected) rest
      | none =>
          match expected with
          | [] => decide (IsPlain c ∧ c ∉ separators) && scan [] rest
          | closing :: outer => if c = closing then scan outer rest
              else decide (IsPlain c) && scan (closing :: outer) rest

theorem scan_cons (expected rest : List Char) (c : Char) : scan expected (c :: rest)
    = match brackets.lookup c with
      | some closing => scan (closing :: expected) rest
      | none => match expected with
          | [] => decide (IsPlain c ∧ c ∉ separators) && scan [] rest
          | closing :: outer => if c = closing then scan outer rest
              else decide (IsPlain c) && scan (closing :: outer) rest := by
  cases expected <;> rfl

theorem scan_opening {opening closing : Char} (h : (opening, closing) ∈ brackets)
    (expected rest : List Char) :
    scan expected (opening :: rest) = scan (closing :: expected) rest := by
  have hlookup : ∀ b ∈ brackets, brackets.lookup b.1 = some b.2 := by decide
  rw [scan_cons, hlookup _ h]

theorem scan_closing {opening closing : Char} (h : (opening, closing) ∈ brackets)
    (expected rest : List Char) :
    scan (closing :: expected) (closing :: rest) = scan expected rest := by
  have hlookup : ∀ b ∈ brackets, brackets.lookup b.2 = none := by decide
  rw [scan_cons, hlookup _ h]
  exact if_pos rfl

theorem lookup_of_isPlain {c : Char} (h : IsPlain c) : brackets.lookup c = none := by
  rw [List.lookup_eq_none_iff]
  intro b hb
  rw [bne_iff_ne]
  rintro rfl
  exact h (List.mem_append_left _ (List.mem_map_of_mem hb))

theorem scan_plain {c opening closing : Char} (h : (opening, closing) ∈ brackets)
    (hc : IsPlain c) (expected rest : List Char) :
    scan (closing :: expected) (c :: rest) = scan (closing :: expected) rest := by
  have hne : c ≠ closing := by
    rintro rfl
    exact hc (List.mem_append_right _ (List.mem_map_of_mem h))
  rw [scan_cons, lookup_of_isPlain hc]
  dsimp only
  rw [if_neg hne, decide_eq_true hc, Bool.true_and]

/-- Inside of a bracket balanced characters are passed over. -/
theorem Balanced.scan (h : Balanced text) {opening closing : Char}
    (hkind : (opening, closing) ∈ brackets) (expected rest : List Char) :
    scan (closing :: expected) (text ++ rest) = scan (closing :: expected) rest := by
  induction h generalizing opening closing expected rest with
  | nil => rfl
  | char hc _ ih => rw [List.cons_append, scan_plain hkind hc, ih hkind]
  | group hinner _ _ ihinside ihrest =>
      rw [List.cons_append, List.append_assoc, List.cons_append, scan_opening hinner,
        ihinside hinner, scan_closing hinner, ihrest hkind]

theorem IsAtom.scan (h : IsAtom text) : scan [] text = true := by
  induction h with
  | nil => rfl
  | char hc hseparator _ ih =>
      rw [scan_cons, lookup_of_isPlain hc]
      exact Bool.and_eq_true_iff.mpr ⟨decide_eq_true ⟨hc, hseparator⟩, ih⟩
  | group hkind hinside _ ih =>
      rw [scan_opening hkind, hinside.scan hkind, scan_closing hkind, ih]

theorem mem_of_lookup {c closing : Char} (h : brackets.lookup c = some closing) :
    (c, closing) ∈ brackets := by
  rcases List.lookup_eq_some_iff.mp h with ⟨_, _, hbrackets, _⟩
  rw [hbrackets]
  exact List.mem_append_right _ (List.mem_cons_self ..)

/-- What is scanned inside of a bracket is balanced up to where the bracket is closed. Behind an
    inner bracket the scan goes on in a rest of the text, so the induction is on its length. -/
theorem balanced_of_scan {text outer : List Char} {closing : Char}
    (h : scan (closing :: outer) text = true) :
    ∃ inside rest, text = inside ++ closing :: rest ∧ Balanced inside ∧ scan outer rest = true := by
  match text, h with
  | c :: more, h =>
      rw [scan_cons] at h
      split at h
      · next inner hlookup =>
        -- An inner bracket opens, so there is one group before the scan goes on in the outer one.
        rcases balanced_of_scan h with ⟨inside, behind, hmore, hinside, hbehind⟩
        rcases balanced_of_scan hbehind with ⟨last, rest, hrest, hlast, hscan⟩
        refine ⟨c :: (inside ++ inner :: last), rest, ?_,
          .group (mem_of_lookup hlookup) hinside hlast, hscan⟩
        rw [hmore, hrest, List.cons_append, List.append_assoc, List.cons_append]
      · dsimp only at h
        split at h
        -- Here the bracket itself is closed.
        · next hc => exact ⟨[], more, by rw [hc]; rfl, .nil, h⟩
        · rw [Bool.and_eq_true, decide_eq_true_iff] at h
          rcases balanced_of_scan h.2 with ⟨inside, rest, hmore, hinside, hscan⟩
          exact ⟨c :: inside, rest, by rw [hmore]; rfl, .char h.1 hinside, hscan⟩
termination_by text.length
decreasing_by all_goals grind

/-- What a scan accepts is an atom. -/
theorem isAtom_of_scan {text : List Char} (h : scan [] text = true) : IsAtom text := by
  match text, h with
  | [], _ => exact .nil
  | c :: more, h =>
      rw [scan_cons] at h
      split at h
      · next inner hlookup =>
        rcases balanced_of_scan h with ⟨inside, rest, hmore, hinside, hscan⟩
        rw [hmore]
        exact .group (mem_of_lookup hlookup) hinside (isAtom_of_scan hscan)
      · rw [Bool.and_eq_true, decide_eq_true_iff] at h
        exact .char h.1.1 h.1.2 (isAtom_of_scan h.2)
termination_by text.length
decreasing_by all_goals grind

instance (text : List Char) : Decidable (IsAtom text) :=
  decidable_of_iff _ ⟨isAtom_of_scan, IsAtom.scan⟩

example : ¬IsAtom "a + b".toList := by decide

example : IsAtom "stencil[((x * 3) + -1) * 16 +: 16]".toList := by decide

end Scan

/-- Characters of names and literals: letters, digits and marks. -/
def IsWordChar (c : Char) : Prop := c.isAlphanum = true ∨ c ∈ ['_', '\'', '$']

instance (c : Char) : Decidable (IsWordChar c) := inferInstanceAs (Decidable (_ ∨ _))

/-- Names and literals are atoms. -/
theorem isAtom_of_word (h : ∀ c ∈ text, IsWordChar c) : IsAtom text := by
  have hother : ∀ c ∈ brackets.map Prod.fst ++ brackets.map Prod.snd ++ separators,
      ¬IsWordChar c := List.forall_iff_forall_mem.mp (by decide)
  induction text with
  | nil => exact .nil
  | cons c rest ih =>
      rw [List.forall_mem_cons] at h
      refine .char (fun hbracket => ?_) (fun hseparator => ?_) (ih h.2)
      · exact hother c (List.mem_append_left _ hbracket) h.1
      · exact hother c (List.mem_append_right _ hseparator) h.1

theorem isWordChar_of_digit {n : Nat} : ∀ c ∈ (toString n).toList, IsWordChar c :=
  fun _ hc => .inl (Bool.or_eq_true_iff.mpr (.inr (isDigit_of_mem hc)))

theorem isWordChar_of_name {name : String} : ∀ c ∈ (printName name).toList, IsWordChar c := by
  intro c hc
  rw [printName, String.toList_ofList, List.mem_map] at hc
  rcases hc with ⟨d, _, rfl⟩
  split
  · next hd => exact .inl hd
  · decide

/-- Integers may have a sign, which only inside of brackets is no operator. -/
theorem balanced_toString (i : Int) : Balanced (toString i).toList := by
  cases i with
  | ofNat n => exact (isAtom_of_word (isWordChar_of_digit (n := n))).balanced
  | negSucc n =>
      have htext : toString (Int.negSucc n) = "-" ++ toString (n + 1) := rfl
      rw [htext, String.toList_append]
      exact .char (by decide) (isAtom_of_word isWordChar_of_digit).balanced

namespace Expr

/-- An expression that is printed as an atom. -/
def IsAtomic (e : Expr) : Prop := IsAtom e.text.toList

/-- An expression that may stand inside of brackets. -/
def IsEnclosable (e : Expr) : Prop := Balanced e.text.toList

variable {a b c : Expr}

theorem IsAtomic.enclosable (h : a.IsAtomic) : a.IsEnclosable := h.balanced

theorem isAtomic_name (name : String) : (ref (printName name)).IsAtomic :=
  isAtom_of_word isWordChar_of_name

theorem isEnclosable_number (value : Int) : (number value).IsEnclosable := balanced_toString value

/-- A numbered name of letters. -/
theorem isAtomic_numbered {beginning : String} (h : beginning.toList.Forall IsWordChar) (k : Nat) :
    (ref (beginning ++ toString k)).IsAtomic := by
  change IsAtom (beginning ++ toString k).toList
  rw [String.toList_append]
  exact (isAtom_of_word (List.forall_iff_forall_mem.mp h)).append
    (isAtom_of_word isWordChar_of_digit)

theorem isAtomic_literal (width value : Nat) : (literal width value).IsAtomic := by
  have htext : (literal width value).text = toString width ++ "'d" ++ toString value := rfl
  rw [IsAtomic, htext, String.toList_append, String.toList_append]
  exact ((isAtom_of_word isWordChar_of_digit).append (isAtom_of_scan rfl)).append
    (isAtom_of_word isWordChar_of_digit)

theorem isAtomic_signedLiteral (width : Nat) (value : Int) :
    (signedLiteral width value).IsAtomic := by
  have hdigits : ∀ n : Nat, IsAtom (toString width ++ "'sd" ++ toString n).toList := by
    intro n
    rw [String.toList_append, String.toList_append]
    exact ((isAtom_of_word isWordChar_of_digit).append (isAtom_of_scan rfl)).append
      (isAtom_of_word isWordChar_of_digit)
  change IsAtom (if value < 0 then s!"(-{width}'sd{value.natAbs})"
    else s!"{width}'sd{value}").toList
  split
  -- A negative literal is printed in parentheses, around its sign.
  · have htext : s!"(-{width}'sd{value.natAbs})".toList
        = '(' :: ('-' :: (toString width ++ "'sd" ++ toString value.natAbs).toList ++ [')']) := by
      simp [toString]
    rw [htext]
    exact .enclosed (by decide) (.char (by decide) (hdigits _).balanced)
  · next hsign =>
    rcases Int.eq_ofNat_of_zero_le (Int.not_lt.mp hsign) with ⟨n, rfl⟩
    exact hdigits n

/-- A mark before the operand, in brackets. -/
theorem isAtom_marked {mark : Char} (hmark : IsPlain mark) (ha : a.IsEnclosable) :
    IsAtom ('(' :: (mark :: a.text.toList ++ [')'])) :=
  .enclosed (by decide) (.char hmark ha)

theorem isAtomic_not (ha : a.IsEnclosable) : (not a).IsAtomic := by
  have htext : (Phrase.not a.text).toList = '(' :: ('~' :: a.text.toList ++ [')']) := by
    simp [Phrase.not]
  change IsAtom (Phrase.not a.text).toList
  rw [htext]
  exact isAtom_marked (by decide) ha

theorem isAtomic_isZero (ha : a.IsEnclosable) : (isZero a).IsAtomic := by
  have htext : ("(!" ++ a.text ++ ")").toList = '(' :: ('!' :: a.text.toList ++ [')']) := by simp
  change IsAtom ("(!" ++ a.text ++ ")").toList
  rw [htext]
  exact isAtom_marked (by decide) ha

theorem isAtomic_negate (ha : a.IsEnclosable) : (negate a).IsAtomic := by
  have htext : ("(-" ++ a.text ++ ")").toList = '(' :: ('-' :: a.text.toList ++ [')']) := by simp
  change IsAtom ("(-" ++ a.text ++ ")").toList
  rw [htext]
  exact isAtom_marked (by decide) ha

theorem isAtomic_signed (ha : a.IsEnclosable) : (signed a).IsAtomic := by
  have htext : ("$signed(" ++ a.text ++ ")").toList
      = "$signed".toList ++ '(' :: (a.text.toList ++ [')']) := by simp
  change IsAtom ("$signed(" ++ a.text ++ ")").toList
  rw [htext]
  exact (isAtom_of_scan rfl).append (.enclosed (by decide) ha)

theorem isAtomic_unsigned (ha : a.IsEnclosable) : (unsigned a).IsAtomic := by
  have htext : ("$unsigned(" ++ a.text ++ ")").toList
      = "$unsigned".toList ++ '(' :: (a.text.toList ++ [')']) := by simp
  change IsAtom ("$unsigned(" ++ a.text ++ ")").toList
  rw [htext]
  exact (isAtom_of_scan rfl).append (.enclosed (by decide) ha)

theorem isAtomic_binary (operator : Operator) (ha : a.IsEnclosable) (hb : b.IsEnclosable) :
    (binary operator a b).IsAtomic := by
  have htext : (Phrase.binary a.text operator.symbol b.text).toList = '(' :: ((a.text.toList
      ++ ' ' :: (operator.symbol.toList ++ ' ' :: b.text.toList)) ++ [')']) := by
    simp [Phrase.binary]
  have hsymbol : Balanced operator.symbol.toList :=
    .of_plain (List.forall_iff_forall_mem.mpr fun c hc =>
      isPlain_of_separator c (separator_of_symbol operator c hc))
  change IsAtom (Phrase.binary a.text operator.symbol b.text).toList
  rw [htext]
  exact .enclosed (by decide)
    (ha.append (.char (by decide) (hsymbol.append (.char (by decide) hb))))

theorem isAtomic_mux (hc : c.IsEnclosable) (ha : a.IsEnclosable) (hb : b.IsEnclosable) :
    (mux c a b).IsAtomic := by
  have htext : (Phrase.mux c.text a.text b.text).toList = '(' :: ((c.text.toList ++ (" ? ".toList
      ++ (a.text.toList ++ (" : ".toList ++ b.text.toList)))) ++ [')']) := by
    simp [Phrase.mux]
  change IsAtom (Phrase.mux c.text a.text b.text).toList
  rw [htext]
  exact .enclosed (by decide) (hc.append ((Balanced.of_plain (by decide)).append
    (ha.append ((Balanced.of_plain (by decide)).append hb))))

/-- Bits of a word, by what stands in the brackets behind it. -/
theorem isAtom_part {name low : String} (hname : IsAtom name.toList) (hlow : Balanced low.toList)
    (width : Nat) : IsAtom (Phrase.part name low width).toList := by
  have htext : (Phrase.part name low width).toList = name.toList ++ '[' :: ((low.toList
      ++ (" +: ".toList ++ (toString width).toList)) ++ [']']) := by
    simp [Phrase.part, toString]
  rw [htext]
  exact hname.append (.enclosed (by decide) (hlow.append ((Balanced.of_plain (by decide)).append
    (isAtom_of_word isWordChar_of_digit).balanced)))

theorem isAtomic_part (low width : Nat) (ha : a.IsAtomic) : (part a low width).IsAtomic :=
  isAtom_part ha (isAtom_of_word isWordChar_of_digit).balanced width

theorem isAtomic_field (width : Nat) (ha : a.IsAtomic) (hb : b.IsEnclosable) :
    (field a b width).IsAtomic := by
  have htext : (b.text ++ s!" * {width}").toList
      = b.text.toList ++ (" * ".toList ++ (toString width).toList) := by
    simp [toString]
  refine isAtom_part ha ?_ width
  rw [htext]
  exact hb.append ((Balanced.of_plain (by decide)).append
    (isAtom_of_word isWordChar_of_digit).balanced)

end Expr

end Rtl

end StencilRtl
