import StencilRtl.Json.Printer
import StencilRtl.Proofs.Document.Numerals

/-!
# Documents as Tokens

The text of a document falls apart into the tokens it was written with.

A text is read from its front, so the statements here are about a text with something
behind it: `Spells` says that whatever tokens are read off what stands behind, the
tokens of the text come before them. All that is asked of the text behind is that it
does not go on with a numeral, which is the one token without an end of its own; in a
document a value is followed by a comma, a line end or nothing, so that is always so.

The bound on the number of steps is carried along as the length of the text, since every
step takes a character.

## Main definitions

* `Json.tokens`: The tokens a value is written with.
* `Json.Proper`: A value whose numerals are proper.
* `Token.Reads`: The tokens of a list of characters.
* `Token.Spells`: The tokens of characters at the front of a text.

## Theorems

* `textBody?_escaped`: A text is read back through its escapes.
* `spells_block`: A layout spells what its parts spell, between brackets.
* `spells_prettyAt`: The layout of a value spells its tokens.
* `Token.ofText?_pretty`: The tokens of a document that is laid out.
-/

namespace StencilRtl

namespace Json

/-- The tokens of some parts between brackets. -/
def bracketed (opening closing : Token) (parts : List (List Token)) : List Token :=
  opening :: ([Token.comma].intercalate parts ++ [closing])

mutual

/-- The tokens a value is written with. -/
def tokens : Json → List Token
  | .null => [.null]
  | .bool value => [.bool value]
  | .number value => [.number value]
  | .text value => [.text value]
  | .list items => bracketed .openList .closeList (itemTokens items)
  | .object members => bracketed .openObject .closeObject (memberTokens members)

/-- The tokens of the items of a list, item by item. -/
def itemTokens : List Json → List (List Token)
  | [] => []
  | item :: rest => item.tokens :: itemTokens rest

/-- The tokens of the members of an object, member by member. -/
def memberTokens : List (String × Json) → List (List Token)
  | [] => []
  | (name, value) :: rest => (.text name :: .colon :: value.tokens) :: memberTokens rest

end

mutual

/-- A value whose numerals are proper. -/
def Proper : Json → Prop
  | .number value => value.Proper
  | .list items => ItemsProper items
  | .object members => MembersProper members
  | .null => True
  | .bool _ => True
  | .text _ => True

/-- Items whose numerals are proper. -/
def ItemsProper : List Json → Prop
  | [] => True
  | item :: rest => item.Proper ∧ ItemsProper rest

/-- Members whose numerals are proper. -/
def MembersProper : List (String × Json) → Prop
  | [] => True
  | (_, value) :: rest => value.Proper ∧ MembersProper rest

end

/-- The characters between the quotes of a text. -/
def escapedChars (chars : List Char) : List Char := chars.flatMap fun c => (escaped c).toList

theorem toList_quote (text : String) :
    (quote text).toList = '\x22' :: (escapedChars text.toList ++ ['\x22']) := by
  rw [quote, String.toList_append, String.toList_append, String.toList_join, List.flatMap_map]
  rfl

theorem hexValue?_hexDigit : ∀ n < 16, hexValue? (hexDigit n) = some n := by decide

/-- The escape by code point of a control character is read as that character. -/
theorem codePoint?_control {c : Char} (h : c.toNat < 0x20) (rest : List Char) :
    codePoint? ('0' :: '0' :: hexDigit (c.toNat / 16) :: hexDigit (c.toNat % 16) :: rest)
      = some (c, rest) := by
  have hzero : hexValue? '0' = some 0 := rfl
  have hhigh := hexValue?_hexDigit (c.toNat / 16) (by omega)
  have hlow := hexValue?_hexDigit (c.toNat % 16) (by omega)
  have hunit : ((0 * 16 + 0) * 16 + c.toNat / 16) * 16 + c.toNat % 16 = c.toNat := by omega
  have hread : codeUnit?
      ('0' :: '0' :: hexDigit (c.toNat / 16) :: hexDigit (c.toNat % 16) :: rest)
        = some (c.toNat, rest) := by
    simp only [codeUnit?, hzero, hhigh, hlow, Option.bind_eq_bind, Option.bind_some, hunit]
    rfl
  rw [codePoint?, hread]
  simp only [Option.bind_eq_bind, Option.bind_some]
  rw [if_neg (by omega), if_neg (by omega), Char.ofNat_toNat]
  rfl

/-- One character is read back through its escape. -/
theorem textBody?_escaped_cons (fuel : Nat) (c : Char) (rest : List Char) :
    textBody? (fuel + 1) ((escaped c).toList ++ rest)
      = (textBody? fuel rest).map fun r => (c :: r.1, r.2) := by
  -- What an escape stands for is the character it was written for.
  have hescape : ∀ tail, escape? (tail ++ rest) = some (c, rest) →
      textBody? (fuel + 1) ('\\' :: (tail ++ rest))
        = (textBody? fuel rest).map fun r => (c :: r.1, r.2) := by
    intro tail htail
    rw [textBody?, if_neg (by decide), if_pos rfl, htail]
    simp only [Option.bind_eq_bind, Option.bind_some]
    cases textBody? fuel rest <;> rfl
  unfold escaped
  split
  · next h => exact hescape ['\x22'] (by rw [h]; rfl)
  split
  · next h => exact hescape ['\\'] (by rw [h]; rfl)
  split
  · next h => exact hescape ['b'] (by rw [h]; rfl)
  split
  · next h => exact hescape ['f'] (by rw [h]; rfl)
  split
  · next h => exact hescape ['n'] (by rw [h]; rfl)
  split
  · next h => exact hescape ['r'] (by rw [h]; rfl)
  split
  · next h => exact hescape ['t'] (by rw [h]; rfl)
  split
  · next h =>
    rw [String.toList_ofList]
    exact hescape ['u', '0', '0', hexDigit (c.toNat / 16), hexDigit (c.toNat % 16)]
      (codePoint?_control h rest)
  · next hquote hslash _ _ _ _ _ hcontrol =>
    have hsingle : c.toString.toList = [c] := String.toList_singleton c
    rw [hsingle, List.singleton_append, textBody?, if_neg hquote, if_neg hslash,
      if_neg hcontrol]
    cases textBody? fuel rest <;> rfl

theorem length_le_escapedChars (chars : List Char) :
    chars.length ≤ (escapedChars chars).length := by
  induction chars with
  | nil => exact Nat.le_refl 0
  | cons c chars ih =>
      have hone : 1 ≤ (escaped c).toList.length := by
        unfold escaped
        split_ifs <;> simp
      simp only [escapedChars, List.flatMap_cons, List.length_append, List.length_cons] at ih ⊢
      omega

/-- A text is read back through its escapes. -/
theorem textBody?_escaped (chars rest : List Char) (fuel : Nat) (hfuel : chars.length < fuel) :
    textBody? fuel (escapedChars chars ++ '\x22' :: rest) = some (chars, rest) := by
  induction chars generalizing fuel with
  | nil =>
      cases fuel with
      | zero => exact absurd hfuel (Nat.not_lt_zero _)
      | succ fuel => rfl
  | cons c chars ih =>
      cases fuel with
      | zero => exact absurd hfuel (Nat.not_lt_zero _)
      | succ fuel =>
          have hrest := ih fuel (Nat.lt_of_succ_lt_succ hfuel)
          rw [escapedChars, List.flatMap_cons, List.append_assoc, textBody?_escaped_cons]
          rw [escapedChars] at hrest
          rw [hrest]
          rfl

namespace Token

/-- The tokens of a list of characters, found in as many steps as there are characters. -/
def Reads (chars : List Char) (tokens : List Token) : Prop :=
  ∀ fuel, chars.length ≤ fuel → ofChars? fuel chars = some tokens

namespace Reads

variable {rest : List Char} {following : List Token}

theorem nil : Reads [] [] := by
  intro fuel _
  cases fuel <;> rfl

theorem blank {c : Char} (hc : isBlank c = true) (h : Reads rest following) :
    Reads (c :: rest) following := by
  intro fuel hfuel
  cases fuel with
  | zero => exact absurd hfuel (Nat.not_succ_le_zero _)
  | succ fuel =>
      rw [ofChars?, if_pos hc]
      exact h fuel (Nat.le_of_succ_le_succ hfuel)

/-- A token takes some characters, at least one. -/
theorem token {c : Char} (chars : List Char) {t : Token} (hc : isBlank c = false)
    (hnext : ∀ fuel, (c :: (chars ++ rest)).length ≤ fuel →
      next? fuel (c :: (chars ++ rest)) = some (t, rest))
    (h : Reads rest following) : Reads (c :: (chars ++ rest)) (t :: following) := by
  intro fuel hfuel
  cases fuel with
  | zero => exact absurd hfuel (Nat.not_succ_le_zero _)
  | succ fuel =>
      have hrest : rest.length ≤ fuel := by
        rw [List.length_cons, List.length_append] at hfuel
        omega
      rw [ofChars?, if_neg (by simp [hc]), hnext _ hfuel]
      simp only [Option.bind_eq_bind, Option.bind_some, h fuel hrest]
      rfl

theorem mark {c : Char} {t : Token} (hc : isBlank c = false)
    (hnext : ∀ fuel, next? fuel (c :: rest) = some (t, rest)) (h : Reads rest following) :
    Reads (c :: rest) (t :: following) :=
  token [] hc (fun fuel _ => hnext fuel) h

theorem quoted (text : String) (h : Reads rest following) :
    Reads ((quote text).toList ++ rest) (.text text :: following) := by
  have hchars : (quote text).toList ++ rest
      = '\x22' :: ((escapedChars text.toList ++ ['\x22']) ++ rest) := by
    rw [toList_quote, List.cons_append]
  rw [hchars]
  refine token _ (by decide) (fun fuel hfuel => ?_) h
  have hlength := length_le_escapedChars text.toList
  have hbody := textBody?_escaped text.toList rest fuel (by
    simp only [List.length_cons, List.length_append] at hfuel
    omega)
  rw [next?, List.append_assoc, List.singleton_append, hbody]
  simp only [Option.bind_eq_bind, Option.bind_some, String.ofList_toList]
  rfl

/-- What begins like a number is read as one. -/
theorem next?_number {c : Char} (hc : isDigit c = true ∨ c = '-') (fuel : Nat) :
    next? fuel (c :: rest) = (number? (c :: rest)).bind fun r => some (.number r.1, r.2) := by
  have hne : ∀ d, isDigit d = false → d ≠ '-' → c ≠ d := by
    rintro d hd hd' rfl
    rcases hc with hc | hc
    · rw [hd] at hc
      exact absurd hc (by decide)
    · exact hd' hc
  unfold next?
  split
  all_goals first
    | rfl
    | (next heq => exact absurd (List.cons.inj heq).1 (hne _ (by decide) (by decide)))

theorem numeral {n : Numeral} (hn : n.Proper) (hends : Ends rest) (h : Reads rest following) :
    Reads (n.text.toList ++ rest) (.number n :: following) := by
  have hread := number?_text hn hends
  -- The first character is a sign or a digit.
  have hfirst : ∃ c chars, n.text.toList = c :: chars ∧ (isDigit c = true ∨ c = '-') := by
    rw [toList_text]
    cases n.negative with
    | true => exact ⟨'-', _, rfl, .inr rfl⟩
    | false =>
        have hne := hn.whole_ne_nil
        have hlt := hn.whole_lt
        generalize n.whole = ds at hne hlt ⊢
        cases ds with
        | nil => exact absurd rfl hne
        | cons d ds => exact ⟨_, _, rfl, .inl (isDigit_digitChar (hlt d List.mem_cons_self))⟩
  rcases hfirst with ⟨c, chars, hchars, hc⟩
  have hblank : isBlank c = false := by
    rcases hc with hc | rfl
    · by_contra hblank
      simp only [Bool.not_eq_false, isBlank, Bool.or_eq_true, decide_eq_true_eq] at hblank
      rcases hblank with ((rfl | rfl) | rfl) | rfl <;> exact absurd hc (by decide)
    · decide
  rw [hchars, List.cons_append] at hread ⊢
  refine token _ hblank (fun fuel _ => ?_) h
  rw [next?_number hc, hread, Option.bind_some]

end Reads

/-- The tokens of characters at the front of a text, whatever stands behind unless it goes
    on with a numeral. -/
def Spells (chars : List Char) (tokens : List Token) : Prop :=
  ∀ rest following, Ends rest → Reads rest following → Reads (chars ++ rest) (tokens ++ following)

namespace Spells

variable {chars more : List Char} {ts us : List Token}

theorem append (h : Spells chars ts) (hends : ∀ rest, Ends (more ++ rest)) (h' : Spells more us) :
    Spells (chars ++ more) (ts ++ us) := by
  intro rest following hrest hreads
  rw [List.append_assoc, List.append_assoc]
  exact h _ _ (hends rest) (h' rest following hrest hreads)

theorem blank {c : Char} (hc : isBlank c = true) (h : Spells chars ts) : Spells (c :: chars) ts :=
  fun rest following hrest hreads => .blank hc (h rest following hrest hreads)

theorem mark {c : Char} {t : Token} (hc : isBlank c = false)
    (hnext : ∀ fuel rest, next? fuel (c :: rest) = some (t, rest)) (h : Spells chars ts) :
    Spells (c :: chars) (t :: ts) :=
  fun rest following hrest hreads =>
    .mark hc (fun fuel => hnext fuel _) (h rest following hrest hreads)

theorem nil : Spells [] [] := fun _ _ _ hreads => hreads

theorem token {c : Char} (chars : List Char) {t : Token} (hc : isBlank c = false)
    (hnext : ∀ fuel rest, next? fuel (c :: (chars ++ rest)) = some (t, rest)) :
    Spells (c :: chars) [t] :=
  fun _ _ _ hreads => .token chars hc (fun fuel _ => hnext fuel _) hreads

/-- Indentation leaves no trace. -/
theorem indent (level : Nat) (h : Spells chars ts) :
    Spells ((Json.indent level).toList ++ chars) ts := by
  rw [Json.indent, String.toList_ofList]
  generalize 2 * level = width
  induction width with
  | zero => exact h
  | succ width ih =>
      rw [List.replicate_succ, List.cons_append]
      exact ih.blank (by decide)

end Spells

/-- A part of a layout spells its tokens. -/
abbrev PartSpells (part : String) (tokens : List Token) : Prop := Spells part.toList tokens

/-- Parts on lines of their own spell what they spell, with commas between. -/
theorem spells_lines (level : Nat) {parts : List String} {tss : List (List Token)}
    (h : List.Forall₂ PartSpells parts tss) :
    Spells (String.intercalate ",\n" (parts.map (Json.indent level ++ ·))).toList
      ([Token.comma].intercalate tss) := by
  induction h with
  | nil => exact Spells.nil
  | @cons part ts parts tss hpart hparts ih =>
      have hfirst : Spells (Json.indent level ++ part).toList ts := by
        rw [String.toList_append]
        exact hpart.indent level
      cases hparts with
      | nil => simpa using hfirst
      | @cons next us parts tss hnext hparts =>
          rw [List.map_cons, List.map_cons, String.intercalate_cons_cons, String.toList_append,
            String.toList_append, List.intercalate_cons_cons, List.append_assoc, List.append_assoc,
            List.singleton_append]
          -- The comma and the end of its line stand between two parts, and the end of line spells
          -- nothing.
          have hrest := Spells.mark (c := ',') (by decide) (fun _ _ => rfl)
            (Spells.blank (c := '\n') (by decide) ih)
          exact hfirst.append (fun rest => ends_cons (c := ',') (by decide)) hrest

/-- A layout spells what its parts spell, between brackets. -/
theorem spells_block {o c : Char} {opening closing : Token} {start finish : String}
    (hstart : start.toList = [o]) (hfinish : finish.toList = [c])
    (ho : isBlank o = false) (hc : isBlank c = false)
    (hopen : ∀ fuel rest, next? fuel (o :: rest) = some (opening, rest))
    (hclose : ∀ fuel rest, next? fuel (c :: rest) = some (closing, rest))
    (level : Nat) {parts : List String} {tss : List (List Token)}
    (h : List.Forall₂ PartSpells parts tss) :
    Spells (block start finish level parts).toList (bracketed opening closing tss) := by
  have hlast : Spells [c] [closing] := Spells.nil.mark hc hclose
  unfold block bracketed
  split
  · next hnil =>
    subst hnil
    cases h
    rw [String.toList_append, hstart, hfinish]
    exact hlast.mark ho hopen
  · have hend : Spells ('\n' :: ((Json.indent level).toList ++ [c])) [closing] :=
      (hlast.indent level).blank (by decide)
    have hall := (spells_lines (level + 1) h).append (fun rest => ends_cons (by decide)) hend
    simp only [String.toList_append, hstart, hfinish, List.append_assoc]
    exact (hall.blank (c := '\n') (by decide)).mark ho hopen

end Token

open Token

mutual

/-- The layout of a value spells its tokens. -/
theorem spells_prettyAt : ∀ (v : Json) (level : Nat), v.Proper →
    Spells (prettyAt level v).toList v.tokens
  | .null, _, _ => by
      rw [prettyAt, tokens]
      exact Spells.token (c := 'n') ['u', 'l', 'l'] (by decide) fun _ _ => rfl
  | .bool true, _, _ => by
      rw [prettyAt, tokens]
      exact Spells.token (c := 't') ['r', 'u', 'e'] (by decide) fun _ _ => rfl
  | .bool false, _, _ => by
      rw [prettyAt, tokens]
      exact Spells.token (c := 'f') ['a', 'l', 's', 'e'] (by decide) fun _ _ => rfl
  | .number _, _, hv => fun _ _ hends h => .numeral hv hends h
  | .text value, _, _ => fun _ _ _ h => .quoted value h
  | .list items, level, hv =>
      spells_block (o := '[') (c := ']') rfl rfl (by decide) (by decide) (fun _ _ => rfl)
        (fun _ _ => rfl) level (spells_prettyItems items (level + 1) hv)
  | .object members, level, hv =>
      spells_block (o := '\x7b') (c := '\x7d') rfl rfl (by decide) (by decide) (fun _ _ => rfl)
        (fun _ _ => rfl) level (spells_prettyMembers members (level + 1) hv)

theorem spells_prettyItems : ∀ (items : List Json) (level : Nat), ItemsProper items →
    List.Forall₂ PartSpells (prettyItems level items) (itemTokens items)
  | [], _, _ => .nil
  | item :: rest, level, hv =>
      .cons (spells_prettyAt item level hv.1) (spells_prettyItems rest level hv.2)

theorem spells_prettyMembers : ∀ (members : List (String × Json)) (level : Nat),
    MembersProper members →
    List.Forall₂ PartSpells (prettyMembers level members) (memberTokens members)
  | [], _, _ => .nil
  | (name, value) :: rest, level, hv => by
      refine .cons ?_ (spells_prettyMembers rest level hv.2)
      have hvalue := spells_prettyAt value level hv.1
      rw [PartSpells, String.toList_append, String.toList_append, List.append_assoc]
      intro behind following hends h
      rw [List.append_assoc]
      refine .quoted name (.mark (by decide) (fun _ => rfl) (.blank (by decide) ?_))
      exact hvalue behind following hends h

end

/-- The tokens of a document that is laid out. -/
theorem Token.ofText?_pretty {v : Json} (hv : v.Proper) :
    Token.ofText? v.pretty = some v.tokens := by
  have h := spells_prettyAt v 0 hv [] [] ends_nil .nil
  rw [List.append_nil, List.append_nil] at h
  exact h _ (Nat.le_succ _)

end Json

end StencilRtl
