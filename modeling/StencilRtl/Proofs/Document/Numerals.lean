import Mathlib.Tactic.IntervalCases
import StencilRtl.Json.Token

/-!
# Numerals Read Back

The text of a numeral is read as the numeral it is the text of.

A numeral has no end of its own: whoever reads it takes digits as long as there are
any, then looks for a point and for an exponent. So what is read depends on what
stands behind it, and `Ends` says of the text behind that it goes on with none of
these. `Proper` says of a numeral that it could have been read at all: its digits are
digits, there is one before the point, and no zero leads the others.

## Main definitions

* `Numeral.Proper`: A numeral that has a text which is read.
* `Json.Ends`: A text that does not go on with a numeral.

## Theorems

* `valueOf_decimalDigits`: The digits of a natural number are worth that number.
* `proper_ofNat`, `proper_ofInt`: The numerals of integers are proper.
* `integer?_ofInt`: The numeral of an integer that fits a word stands for it.
* `number?_text`: A numeral is read back.
-/

namespace StencilRtl

/-- Every digit of a number, from its last one on. -/
theorem decimalDigits_eq (n : Nat) :
    decimalDigits n = if n < 10 then [n] else decimalDigits (n / 10) ++ [n % 10] := by
  have hdigit : ∀ d < 10, (Nat.digitChar d).toNat - 48 = d := by decide
  unfold decimalDigits
  split
  · next hlt =>
    rw [Nat.toDigits_of_lt_base hlt, List.map_singleton, hdigit n hlt]
  · next hge =>
    rw [Nat.toDigits_of_base_le (by decide) (by omega), List.map_append, List.map_singleton,
      hdigit (n % 10) (Nat.mod_lt n (by decide))]

theorem decimalDigits_lt (n : Nat) : ∀ d ∈ decimalDigits n, d < 10 := by
  induction n using Nat.strongRecOn with
  | ind n ih =>
      intro d hd
      rw [decimalDigits_eq] at hd
      split at hd
      · next hlt => rwa [List.mem_singleton.mp hd]
      · rcases List.mem_append.mp hd with hd | hd
        · exact ih (n / 10) (by omega) d hd
        · rw [List.mem_singleton.mp hd]
          exact Nat.mod_lt n (by decide)

theorem decimalDigits_ne_nil (n : Nat) : decimalDigits n ≠ [] := by
  rw [decimalDigits_eq]
  split <;> simp

/-- Only zero begins with a zero. -/
theorem head?_decimalDigits {n : Nat} (h : 0 < n) : (decimalDigits n).head? ≠ some 0 := by
  induction n using Nat.strongRecOn with
  | ind n ih =>
      rw [decimalDigits_eq]
      split
      · simp only [List.head?_cons, ne_eq, Option.some.injEq]
        omega
      · have hhead := ih (n / 10) (by omega) (by omega)
        have hne := decimalDigits_ne_nil (n / 10)
        generalize decimalDigits (n / 10) = ds at hhead hne
        cases ds with
        | nil => exact absurd rfl hne
        | cons d ds => exact hhead

namespace Numeral

/-- A numeral whose digits are digits, with at least one before the point and no zero
    in front of others. -/
structure Proper (n : Numeral) : Prop where
  whole_ne_nil : n.whole ≠ []
  leading : n.whole = [0] ∨ n.whole.head? ≠ some 0
  whole_lt : ∀ d ∈ n.whole, d < 10
  fraction_lt : ∀ d ∈ n.fraction, d < 10

theorem valueOf_append (ds : List Nat) (d : Nat) :
    valueOf (ds ++ [d]) = 10 * valueOf ds + d := by
  rw [valueOf, List.foldl_append, List.foldl_cons, List.foldl_nil]
  rfl

/-- The digits of a natural number are worth that number. -/
theorem valueOf_decimalDigits (n : Nat) : valueOf (decimalDigits n) = n := by
  induction n using Nat.strongRecOn with
  | ind n ih =>
      rw [decimalDigits_eq]
      split
      · simp [valueOf]
      · rw [valueOf_append, ih (n / 10) (by omega)]
        omega

/-- A sign before the digits of a natural number makes a proper numeral. -/
theorem proper_decimalDigits (negative : Bool) (n : Nat) :
    Proper ⟨negative, decimalDigits n, [], none⟩ where
  whole_ne_nil := decimalDigits_ne_nil n
  leading := by
    rcases Nat.eq_zero_or_pos n with rfl | hpos
    · exact .inl rfl
    · exact .inr (head?_decimalDigits hpos)
  whole_lt := decimalDigits_lt n
  fraction_lt _ hd := absurd hd List.not_mem_nil

theorem proper_ofNat (n : Nat) : (ofNat n).Proper := proper_decimalDigits false n

theorem proper_ofInt (i : Int) : (ofInt i).Proper := proper_decimalDigits _ i.natAbs

/-- The numeral of a natural number that fits a word stands for it. -/
theorem integer?_ofNat {n : Nat} (h : n < UInt64.size) : (ofNat n).integer? = some (n : Int) := by
  simp [ofNat, integer?, valueOf_decimalDigits, h]

/-- The numeral of an integer that fits a signed word stands for it. -/
theorem integer?_ofInt {i : Int} (hlow : -(2 ^ 63) ≤ i) (hhigh : i < 2 ^ 63) :
    (ofInt i).integer? = some i := by
  have hsize : UInt64.size = 2 ^ 64 := rfl
  unfold ofInt integer?
  simp only [valueOf_decimalDigits, and_self, if_true, decide_eq_true_eq, hsize]
  split
  · rw [if_pos (by omega)]
    congr 1
    omega
  · rw [if_pos (by omega)]
    congr 1
    omega

end Numeral

namespace Json

open Numeral (digitChar digitsText exponentText)

/-- A text that does not go on with a digit, a point or an exponent. -/
def Ends (rest : List Char) : Prop :=
  ∀ c ∈ rest.head?, isDigit c = false ∧ c ≠ '.' ∧ c ≠ 'e' ∧ c ≠ 'E'

theorem ends_nil : Ends [] := by
  intro c hc
  exact absurd hc (by simp)

theorem ends_cons {c : Char} {rest : List Char}
    (h : isDigit c = false ∧ c ≠ '.' ∧ c ≠ 'e' ∧ c ≠ 'E') : Ends (c :: rest) := by
  intro d hd
  rw [List.head?_cons, Option.mem_some_iff] at hd
  rwa [← hd]

theorem isDigit_digitChar {d : Nat} (h : d < 10) : isDigit (digitChar d) = true := by
  interval_cases d <;> rfl

theorem digitValue_digitChar {d : Nat} (h : d < 10) : digitValue (digitChar d) = d := by
  interval_cases d <;> rfl

/-- The characters of a list of digits. -/
theorem toList_digitsText (ds : List Nat) : (digitsText ds).toList = ds.map digitChar :=
  String.toList_ofList

/-- Digits are read up to the first character that is none. -/
theorem digits_append {ds : List Nat} {rest : List Char} (hds : ∀ d ∈ ds, d < 10)
    (hrest : ∀ c ∈ rest.head?, isDigit c = false) :
    digits (ds.map digitChar ++ rest) = (ds, rest) := by
  have hall : ∀ c ∈ ds.map digitChar, isDigit c = true := by
    intro c hc
    rcases List.mem_map.mp hc with ⟨d, hd, rfl⟩
    exact isDigit_digitChar (hds d hd)
  -- What is behind the digits does not begin with one.
  have htake : rest.takeWhile isDigit = [] ∧ rest.dropWhile isDigit = rest := by
    cases rest with
    | nil => exact ⟨rfl, rfl⟩
    | cons c rest =>
        have hc := hrest c rfl
        exact ⟨List.takeWhile_cons_of_neg (by simp [hc]), List.dropWhile_cons_of_neg (by simp [hc])⟩
  have hvalues : (ds.map digitChar).map digitValue = ds := by
    rw [List.map_map]
    exact (List.map_congr_left fun d hd => digitValue_digitChar (hds d hd)).trans (List.map_id ds)
  rw [digits, List.takeWhile_append_of_pos hall, List.dropWhile_append_of_pos hall, htake.1,
    htake.2, List.append_nil, hvalues]

variable {rest : List Char}

/-- The digits before the point are read up to the point. -/
theorem wholePart?_append {n : Numeral} (hn : n.Proper)
    (hrest : ∀ c ∈ rest.head?, isDigit c = false) :
    wholePart? (n.whole.map digitChar ++ rest) = some (n.whole, rest) := by
  rw [wholePart?, digits_append hn.whole_lt hrest]
  have hne := hn.whole_ne_nil
  have hlead := hn.leading
  -- One digit, or several that do not begin with a zero.
  generalize n.whole = ds at hne hlead ⊢
  cases ds with
  | nil => exact absurd rfl hne
  | cons d ds =>
      cases ds with
      | nil => cases d <;> rfl
      | cons e ds =>
          cases d with
          | zero => exact absurd hlead (by simp)
          | succ d => rfl

/-- The characters of a fraction. -/
def fractionChars (fraction : List Nat) : List Char :=
  if fraction = [] then [] else '.' :: fraction.map digitChar

/-- The characters of an exponent. -/
def exponentChars : Option Int → List Char
  | none => []
  | some i => 'e' :: (if i < 0 then '-' else '+') :: (decimalDigits i.natAbs).map digitChar

/-- The characters of a numeral, part by part. -/
theorem toList_text (n : Numeral) :
    n.text.toList = (if n.negative then ['-'] else [])
      ++ (n.whole.map digitChar ++ (fractionChars n.fraction ++ exponentChars n.exponent)) := by
  rcases n with ⟨negative, whole, fraction, exponent⟩
  have hsign : (if negative then "-" else "").toList = if negative then ['-'] else [] := by
    cases negative <;> rfl
  have hfraction : (if fraction = [] then "" else "." ++ digitsText fraction).toList
      = fractionChars fraction := by
    unfold fractionChars
    split
    · rfl
    · rw [String.toList_append, toList_digitsText]
      rfl
  have hexponent : ∀ i, (exponentText i).toList = exponentChars (some i) := by
    intro i
    simp only [exponentText, String.toList_append, toList_digitsText, exponentChars]
    split <;> rfl
  simp only [Numeral.text, String.toList_append, toList_digitsText, hsign, hfraction,
    List.append_assoc]
  -- Without an exponent nothing is printed behind the fraction.
  cases exponent with
  | none => rfl
  | some i => rw [← hexponent i]

/-- Behind a fraction there is neither a digit nor a second point. -/
theorem head?_exponentChars (exponent : Option Int) (hrest : Ends rest) :
    ∀ c ∈ (exponentChars exponent ++ rest).head?, isDigit c = false ∧ c ≠ '.' := by
  cases exponent with
  | none => exact fun c hc => ⟨(hrest c hc).1, (hrest c hc).2.1⟩
  | some i =>
      intro c hc
      rw [exponentChars, List.cons_append, List.head?_cons, Option.mem_some_iff] at hc
      rw [← hc]
      decide

/-- Behind the digits before the point there is no digit. -/
theorem head?_fractionChars (fraction : List Nat) {rest : List Char}
    (hrest : ∀ c ∈ rest.head?, isDigit c = false) :
    ∀ c ∈ (fractionChars fraction ++ rest).head?, isDigit c = false := by
  unfold fractionChars
  split
  · exact hrest
  · intro c hc
    rw [List.cons_append, List.head?_cons, Option.mem_some_iff] at hc
    rw [← hc]
    decide

theorem fractionPart?_append {fraction : List Nat} (hlt : ∀ d ∈ fraction, d < 10)
    (hrest : ∀ c ∈ rest.head?, isDigit c = false ∧ c ≠ '.') :
    fractionPart? (fractionChars fraction ++ rest) = some (fraction, rest) := by
  unfold fractionChars
  split
  -- Without a fraction nothing is read, and what is behind does not begin with a point.
  · next hnil =>
    subst hnil
    cases rest with
    | nil => rfl
    | cons c rest =>
        unfold fractionPart?
        split
        · next heq => exact absurd (List.cons.inj heq).1 (hrest c rfl).2
        · rfl
  · next hne =>
    rw [List.cons_append, fractionPart?, digits_append hlt fun c hc => (hrest c hc).1]
    cases fraction with
    | nil => exact absurd rfl hne
    | cons d ds => rfl

/-- The digits of an exponent are read with the sign in front of them. -/
theorem exponentDigits?_append (negative : Bool) (n : Nat) (hrest : Ends rest) :
    exponentDigits? negative ((decimalDigits n).map digitChar ++ rest)
      = some (some (if negative then -(n : Int) else (n : Int)), rest) := by
  have hne := decimalDigits_ne_nil n
  have hvalue := Numeral.valueOf_decimalDigits n
  rw [exponentDigits?, digits_append (decimalDigits_lt n) fun c hc => (hrest c hc).1]
  generalize decimalDigits n = ds at hne hvalue
  cases ds with
  | nil => exact absurd rfl hne
  | cons d ds => simp only [hvalue]

theorem exponentPart?_append (exponent : Option Int) (hrest : Ends rest) :
    exponentPart? (exponentChars exponent ++ rest) = some (exponent, rest) := by
  cases exponent with
  | none =>
      cases rest with
      | nil => rfl
      | cons c rest =>
          have hc := hrest c rfl
          simp [exponentChars, exponentPart?, hc.2.2.1, hc.2.2.2]
  | some i =>
      rw [exponentChars, List.cons_append, List.cons_append]
      -- The sign is written in front of the digits of the absolute value.
      split
      · next hneg =>
        have hvalue : -(i.natAbs : Int) = i := by omega
        have hread := exponentDigits?_append true i.natAbs hrest
        rw [if_pos rfl, hvalue] at hread
        exact hread
      · next hpos =>
        have hvalue : (i.natAbs : Int) = i := by omega
        have hread := exponentDigits?_append false i.natAbs hrest
        rw [if_neg (by simp), hvalue] at hread
        exact hread

/-- A numeral is read back behind its sign. -/
theorem magnitude?_append {n : Numeral} (hn : n.Proper) (hrest : Ends rest) :
    magnitude? n.negative
      (n.whole.map digitChar ++ (fractionChars n.fraction ++ exponentChars n.exponent) ++ rest)
        = some (n, rest) := by
  have hexponent := head?_exponentChars n.exponent hrest
  have hfraction := head?_fractionChars n.fraction fun c hc => (hexponent c hc).1
  simp only [List.append_assoc, magnitude?, wholePart?_append hn hfraction, Option.bind_eq_bind,
    Option.bind_some, fractionPart?_append hn.fraction_lt hexponent,
    exponentPart?_append n.exponent hrest]
  rfl

/-- A numeral is read back, whatever does not go on with it stands behind. -/
theorem number?_text {n : Numeral} (hn : n.Proper) (hrest : Ends rest) :
    number? (n.text.toList ++ rest) = some (n, rest) := by
  have hread := magnitude?_append hn hrest
  rw [toList_text]
  cases hsign : n.negative with
  | true =>
      rw [hsign] at hread
      exact hread
  | false =>
      rw [hsign] at hread
      rw [if_neg (by simp), List.nil_append]
      have hne := hn.whole_ne_nil
      have hlt := hn.whole_lt
      generalize n.whole = ds at hne hlt hread ⊢
      cases ds with
      | nil => exact absurd rfl hne
      | cons d ds =>
          -- A digit is no sign.
          have hdigit : digitChar d ≠ '-' := by
            intro heq
            have hd := isDigit_digitChar (hlt d List.mem_cons_self)
            rw [heq] at hd
            exact absurd hd (by decide)
          rw [List.map_cons, List.cons_append, List.cons_append] at hread ⊢
          unfold number?
          split
          · next heq => exact absurd (List.cons.inj heq).1 hdigit
          · exact hread

end Json

end StencilRtl
