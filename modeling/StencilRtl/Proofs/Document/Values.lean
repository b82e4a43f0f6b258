import StencilRtl.Json.Reader
import StencilRtl.Proofs.Document.Tokens

/-!
# Documents Read Back

A document that is laid out is read as the value it was written from.

The text has become tokens already, so what is left is to read a value off the tokens it
was written with, with other tokens behind them. A value takes its own tokens and no
others, since brackets are closed where they were opened; the only thing to look at is
that no value begins with a closing bracket, which is how an empty list is told from one
with items.

## Theorems

* `value?_tokens`: A value is read off its tokens.
* `ofText?_pretty`: A document is read back from its layout.
-/

namespace StencilRtl

namespace Json

/-- No value begins with a closing bracket. -/
theorem tokens_eq_cons (v : Json) : ∃ t ts, v.tokens = t :: ts ∧ t ≠ .closeList := by
  cases v with
  | null => exact ⟨_, _, by rw [tokens], by simp⟩
  | bool b => exact ⟨_, _, by rw [tokens], by simp⟩
  | number n => exact ⟨_, _, by rw [tokens], by simp⟩
  | text s => exact ⟨_, _, by rw [tokens], by simp⟩
  | list items => exact ⟨_, _, by rw [tokens, bracketed], by simp⟩
  | object members => exact ⟨_, _, by rw [tokens, bracketed], by simp⟩

/-- Items begin with the first token of the first one. -/
theorem itemTokens_eq_cons {item : Json} {t : Token} {ts : List Token} (h : item.tokens = t :: ts)
    (items : List Json) :
    ∃ us, [Token.comma].intercalate (itemTokens (item :: items)) = t :: us := by
  rw [itemTokens, h]
  cases itemTokens items with
  | nil => exact ⟨ts, by simp⟩
  | cons next more => exact ⟨_, by rw [List.intercalate_cons_cons]; rfl⟩

/-- Members begin with the name of the first one. -/
theorem memberTokens_eq_cons (member : String × Json) (members : List (String × Json)) :
    ∃ us, [Token.comma].intercalate (memberTokens (member :: members)) = .text member.1 :: us := by
  rw [memberTokens]
  cases memberTokens members with
  | nil => exact ⟨_, by rw [List.intercalate_singleton]⟩
  | cons next more => exact ⟨_, by rw [List.intercalate_cons_cons]; rfl⟩

variable {fuel : Nat}

/-- A list with items goes on with the items. -/
theorem value?_list (t : Token) (ts : List Token) (ht : t ≠ .closeList) :
    value? (fuel + 1) (.openList :: t :: ts)
      = (items? fuel (t :: ts)).map fun r => (.list r.1, r.2) := by
  unfold value?
  simp only []
  split
  · next heq => exact absurd (List.cons.inj heq).1 ht
  · cases items? fuel (t :: ts) <;> rfl

/-- An object with members goes on with the members. -/
theorem value?_object (name : String) (ts : List Token) :
    value? (fuel + 1) (.openObject :: .text name :: ts)
      = (members? fuel (.text name :: ts)).map fun r => (.object r.1, r.2) := by
  unfold value?
  simp only []
  cases members? fuel (.text name :: ts) <;> rfl

mutual

/-- A value is read off its tokens, and what stands behind them is left. -/
theorem value?_tokens : ∀ (v : Json) (rest : List Token) (fuel : Nat),
    2 * v.tokens.length ≤ fuel → value? fuel (v.tokens ++ rest) = some (v, rest)
  | .null, _, _, h => by
      rw [tokens] at h ⊢
      obtain ⟨fuel, rfl⟩ := Nat.exists_eq_add_of_le' (Nat.le_trans (by simp) h : 1 ≤ _)
      rfl
  | .bool value, _, _, h => by
      rw [tokens] at h ⊢
      obtain ⟨fuel, rfl⟩ := Nat.exists_eq_add_of_le' (Nat.le_trans (by simp) h : 1 ≤ _)
      rfl
  | .number value, _, _, h => by
      rw [tokens] at h ⊢
      obtain ⟨fuel, rfl⟩ := Nat.exists_eq_add_of_le' (Nat.le_trans (by simp) h : 1 ≤ _)
      rfl
  | .text value, _, _, h => by
      rw [tokens] at h ⊢
      obtain ⟨fuel, rfl⟩ := Nat.exists_eq_add_of_le' (Nat.le_trans (by simp) h : 1 ≤ _)
      rfl
  | .list items, rest, fuel, h => by
      rw [tokens, bracketed] at h ⊢
      simp only [List.length_cons, List.length_append, List.length_nil] at h
      obtain ⟨fuel, rfl⟩ := Nat.exists_eq_add_of_le' (by omega : 1 ≤ fuel)
      cases items with
      | nil => rfl
      | cons item items =>
          have hitems := items?_tokens (item :: items) rest fuel (by simp) (by omega)
          rcases tokens_eq_cons item with ⟨t, ts, htokens, ht⟩
          -- A list that is not empty does not begin with its closing bracket.
          rcases itemTokens_eq_cons htokens items with ⟨us, hus⟩
          rw [hus] at hitems ⊢
          simp only [List.cons_append, List.append_assoc, List.nil_append] at hitems ⊢
          rw [value?_list t _ ht, hitems]
          rfl
  | .object members, rest, fuel, h => by
      rw [tokens, bracketed] at h ⊢
      simp only [List.length_cons, List.length_append, List.length_nil] at h
      obtain ⟨fuel, rfl⟩ := Nat.exists_eq_add_of_le' (by omega : 1 ≤ fuel)
      cases members with
      | nil => rfl
      | cons member members =>
          have hmembers := members?_tokens (member :: members) rest fuel (by simp) (by omega)
          rcases memberTokens_eq_cons member members with ⟨us, hus⟩
          rw [hus] at hmembers ⊢
          simp only [List.cons_append, List.append_assoc, List.nil_append] at hmembers ⊢
          rw [value?_object, hmembers]
          rfl

/-- Items are read through the closing bracket. -/
theorem items?_tokens : ∀ (items : List Json) (rest : List Token) (fuel : Nat), items ≠ [] →
    2 * (([Token.comma].intercalate (itemTokens items)).length + 1) ≤ fuel →
    items? fuel ([Token.comma].intercalate (itemTokens items) ++ .closeList :: rest)
      = some (items, rest)
  | [], _, _, hne, _ => absurd rfl hne
  | [item], rest, fuel, _, h => by
      rw [itemTokens, itemTokens, List.intercalate_singleton] at h ⊢
      obtain ⟨fuel, rfl⟩ := Nat.exists_eq_add_of_le' (by omega : 1 ≤ fuel)
      rw [items?, value?_tokens item _ fuel (by omega)]
      rfl
  | item :: next :: items, rest, fuel, _, h => by
      have hmore := items?_tokens (next :: items) rest
      rw [itemTokens, itemTokens, List.intercalate_cons_cons, ← itemTokens] at h ⊢
      simp only [List.length_append, List.length_cons, List.length_nil] at h
      obtain ⟨fuel, rfl⟩ := Nat.exists_eq_add_of_le' (by omega : 1 ≤ fuel)
      rw [List.append_assoc, List.append_assoc, items?, value?_tokens item _ fuel (by omega)]
      simp only [Option.bind_eq_bind, Option.bind_some, List.singleton_append]
      rw [hmore fuel (by simp) (by omega)]
      rfl

/-- Members are read through the closing bracket. -/
theorem members?_tokens : ∀ (members : List (String × Json)) (rest : List Token) (fuel : Nat),
    members ≠ [] → 2 * (([Token.comma].intercalate (memberTokens members)).length + 1) ≤ fuel →
    members? fuel ([Token.comma].intercalate (memberTokens members) ++ .closeObject :: rest)
      = some (members, rest)
  | [], _, _, hne, _ => absurd rfl hne
  | [(name, value)], rest, fuel, _, h => by
      rw [memberTokens, memberTokens, List.intercalate_singleton] at h ⊢
      simp only [List.length_cons] at h
      obtain ⟨fuel, rfl⟩ := Nat.exists_eq_add_of_le' (by omega : 1 ≤ fuel)
      rw [List.cons_append, List.cons_append, members?]
      simp only []
      rw [value?_tokens value _ fuel (by omega)]
      rfl
  | (name, value) :: (name', value') :: members, rest, fuel, _, h => by
      have hmore := members?_tokens ((name', value') :: members) rest
      rw [memberTokens, memberTokens, List.intercalate_cons_cons, ← memberTokens] at h ⊢
      simp only [List.length_append, List.length_cons, List.length_nil] at h
      obtain ⟨fuel, rfl⟩ := Nat.exists_eq_add_of_le' (by omega : 1 ≤ fuel)
      simp only [List.cons_append, List.append_assoc, List.nil_append]
      rw [members?]
      simp only []
      rw [value?_tokens value _ fuel (by omega)]
      simp only [Option.bind_eq_bind, Option.bind_some]
      rw [hmore fuel (by simp) (by omega)]
      rfl

end

/-- A document is read back from its layout. -/
theorem ofText?_pretty {v : Json} (hv : v.Proper) : ofText? v.pretty = some v := by
  have htokens := Token.ofText?_pretty hv
  have hvalue := value?_tokens v [] (2 * v.tokens.length + 1) (by omega)
  rw [List.append_nil] at hvalue
  rw [ofText?, htokens]
  simp only [Option.bind_eq_bind, Option.bind_some, hvalue]
  rfl

end Json

end StencilRtl
