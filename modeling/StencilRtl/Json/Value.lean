import StencilRtl.Decimal.Shortest

/-!
# Document values

The values a JSON document is made of.

Numbers stay as they are written, because whether a number has a fraction part
decides where it may stand. Objects keep their members in the order and number
in which they are written, because a name given twice is an error for some
readers and nothing to others.

## Main definitions

* `Json`: A document value.
* `Json.nesting`: How deep lists and objects are nested.
* `Json.readable`: Whether every number has a value.
* `Json.member?`: The first member of a name.
-/

namespace StencilRtl

/-- A document value. -/
inductive Json where
  | null
  | bool (value : Bool)
  | number (value : Numeral)
  | text (value : String)
  | list (items : List Json)
  | object (members : List (String × Json))
  deriving BEq, Repr, Inhabited

namespace Json

/-- A natural number. -/
def nat (n : Nat) : Json := .number (.ofNat n)

/-- An integer. -/
def int (i : Int) : Json := .number (.ofInt i)

/-- A floating point number. -/
def real (x : Binary64) : Json := .number x.numeral

mutual

/-- How deep lists and objects are nested. A value that is neither has depth
    zero. -/
def nesting : Json → Nat
  | .list items => nestingOfItems items + 1
  | .object members => nestingOfMembers members + 1
  | .null => 0
  | .bool _ => 0
  | .number _ => 0
  | .text _ => 0

/-- The deepest nesting among the items of a list. -/
def nestingOfItems : List Json → Nat
  | [] => 0
  | item :: rest => max item.nesting (nestingOfItems rest)

/-- The deepest nesting among the members of an object. -/
def nestingOfMembers : List (String × Json) → Nat
  | [] => 0
  | (_, value) :: rest => max value.nesting (nestingOfMembers rest)

end

mutual

/-- Whether every number is an integer that fits a word or has a floating point
    value. -/
def readable : Json → Bool
  | .list items => itemsReadable items
  | .object members => membersReadable members
  | .number value => value.integer?.isSome || value.binary64?.isSome
  | .null => true
  | .bool _ => true
  | .text _ => true

/-- Whether every number among the items of a list has a value. -/
def itemsReadable : List Json → Bool
  | [] => true
  | item :: rest => item.readable && itemsReadable rest

/-- Whether every number among the members of an object has a value. -/
def membersReadable : List (String × Json) → Bool
  | [] => true
  | (_, value) :: rest => value.readable && membersReadable rest

end

/-- The first member called `name`. -/
def member? (members : List (String × Json)) (name : String) : Option Json :=
  (members.find? fun m => m.1 = name).map Prod.snd

/-- How many members are called `name`. -/
def memberCount (members : List (String × Json)) (name : String) : Nat :=
  members.countP fun m => m.1 = name

end Json

end StencilRtl
