/-!
# Phrases of the hardware language

The concrete forms in which expressions of the hardware language are written.

Every form made of parts is wrapped in parentheses, braces or brackets, so that
a phrase put inside another one never regroups. Identifiers and literals stand
alone.

## Main definitions

* `Phrase.literal`, `Phrase.bit`: Sized literals.
* `Phrase.all`, `Phrase.any`: Conjunctions and disjunctions of any length.
* `Phrase.binary`, `Phrase.not`, `Phrase.mux`: Operators.
* `Phrase.concat`, `Phrase.part`: Putting words together and taking them apart.
-/

namespace StencilRtl

namespace Rtl

namespace Phrase

/-- A decimal literal of `width` bits. -/
def literal (width value : Nat) : String := s!"{width}'d{value}"

/-- A literal of one bit. -/
def bit (value : Bool) : String := literal 1 (if value then 1 else 0)

/-- Terms joined by an operator. A lone term stays as it is, and no terms at
    all are `unit`. -/
def joined (operator unit : String) : List String → String
  | [] => unit
  | [term] => term
  | terms => "(" ++ String.intercalate operator terms ++ ")"

/-- The conjunction of all terms. -/
def all (terms : List String) : String := joined " & " "1'b1" terms

/-- The disjunction of all terms. -/
def any (terms : List String) : String := joined " | " "1'b0" terms

/-- The complement of every bit. -/
def not (a : String) : String := "(~" ++ a ++ ")"

/-- Two operands with an operator between them. -/
def binary (a operator b : String) : String := "(" ++ a ++ " " ++ operator ++ " " ++ b ++ ")"

/-- Equality. -/
def equal (a b : String) : String := binary a "==" b

/-- A choice between two values. -/
def mux (condition ifTrue ifFalse : String) : String :=
  "(" ++ condition ++ " ? " ++ ifTrue ++ " : " ++ ifFalse ++ ")"

/-- Parts put together, the first one in the low bits. A lone part stays as it
    is. -/
def concat : List String → String
  | [part] => part
  | parts => "\x7b" ++ String.intercalate ", " parts.reverse ++ "\x7d"

/-- `width` bits of `base`, from the bit at `low` upwards. -/
def part (base low : String) (width : Nat) : String := s!"{base}[{low} +: {width}]"

end Phrase

end Rtl

end StencilRtl
