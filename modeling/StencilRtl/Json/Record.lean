import StencilRtl.Json.Value

/-!
# Records in documents

How structured data is laid down in a JSON document.

A record is written as an object with a member for each field, in any order, or
as a list of the field values in their declared order. Members of other names
are passed over, a field given twice is an error, and a list longer than the
record is one too. Fields left out are reported as absent, whoever reads the
record decides whether that is allowed.

A variant is a record with a further member `node`, or a further first item,
telling which variant it is. Inside another variant the tag may also be the
variant's number. A choice among plain names is written as the name, or as an
object with the name as its only member and nothing in it.

## Main definitions

* `Json.fields?`: The fields of a record.
* `Json.variant?`: The tag of a variant and the record beside it.
* `Json.choice?`: A choice among names.
* `Json.required`, `Json.optional`: Reading one field.
-/

namespace StencilRtl

namespace Json

/-- The items of a list followed by absent ones, `count` in all. -/
def padded : Nat → List Json → List (Option Json)
  | 0, _ => []
  | count + 1, [] => none :: padded count []
  | count + 1, item :: rest => some item :: padded count rest

/-- The fields called `names` of a record, in this order. -/
def fields? (names : List String) : Json → Option (List (Option Json))
  | .object members =>
      if names.all fun name => memberCount members name ≤ 1 then
        some (names.map (member? members))
      else none
  | .list items => if items.length ≤ names.length then some (padded names.length items) else none
  | _ => none

/-- The variant a tag stands for. -/
def variantOfTag? (inner : Bool) (variants : List String) : Json → Option String
  | .text name => if name ∈ variants then some name else none
  | .number value =>
      match inner, value.integer? with
      | true, some (.ofNat index) => variants[index]?
      | _, _ => none
  | _ => none

/-- The tag of a variant, one of `variants`, and its record without the tag.
    `inner` says that the variant stands inside another one. -/
def variant? (inner : Bool) (variants : List String) : Json → Option (String × Json)
  | .object members =>
      if memberCount members "node" = 1 then do
        let name ← variantOfTag? inner variants (← member? members "node")
        return (name, .object (members.filter fun m => m.1 ≠ "node"))
      else none
  | .list (tag :: rest) => do
      let name ← variantOfTag? inner variants tag
      return (name, .list rest)
  | _ => none

/-- A choice among `names`. `inner` says that it stands inside a variant. -/
def choice? (inner : Bool) (names : List String) : Json → Option String
  | .text name => if name ∈ names then some name else none
  | .object [(name, .null)] => if name ∈ names then some name else none
  | .object [(name, .object [])] => if inner && name ∈ names then some name else none
  | _ => none

/-- A text. -/
def text? : Json → Option String
  | .text value => some value
  | _ => none

/-- A truth value. -/
def bool? : Json → Option Bool
  | .bool value => some value
  | _ => none

/-- An integer of at least `low` and at most `high`. -/
def intBetween? (low high : Int) : Json → Option Int
  | .number value => do
      let i ← value.integer?
      if low ≤ i ∧ i ≤ high then some i else none
  | _ => none

/-- A word of 32 bits. -/
def word32? (j : Json) : Option UInt32 := do
  let i ← j.intBetween? 0 (UInt32.size - 1)
  return UInt32.ofNat i.toNat

/-- A word of 64 bits. -/
def word64? (j : Json) : Option UInt64 := do
  let i ← j.intBetween? 0 (UInt64.size - 1)
  return UInt64.ofNat i.toNat

/-- A signed word of 64 bits. -/
def signed64? (j : Json) : Option Int64 := do
  let i ← j.intBetween? Int64.minValue.toInt Int64.maxValue.toInt
  return Int64.ofInt i

/-- A floating point number; integers are accepted. -/
def binary64? : Json → Option Binary64
  | .number value =>
      match value.integer? with
      | some i =>
          let magnitude := Binary64.ofNat i.natAbs
          some (if i < 0 then magnitude.opposite else magnitude)
      | none => value.binary64?
  | _ => none

/-- A list whose items are read by `item`. -/
def list? {α : Type} (item : Json → Option α) : Json → Option (List α)
  | .list items => items.mapM item
  | _ => none

/-- A field that has to be there. -/
def required {α : Type} (read : Json → Option α) : Option Json → Option α
  | some value => read value
  | none => none

/-- A field that stands for `absent` when it is left out. -/
def optional {α : Type} (absent : α) (read : Json → Option α) : Option Json → Option α
  | some value => read value
  | none => some absent

end Json

end StencilRtl
