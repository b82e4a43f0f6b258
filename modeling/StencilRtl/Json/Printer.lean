import StencilRtl.Json.Value

/-!
# Writing documents

The text of a JSON document, on one line or laid out.

The laid-out form puts every item and member on a line of its own, indented by
two spaces for each level, with a space behind the colon; an empty list or
object stays on its line. Texts are escaped only where they have to be: the
quote, the backslash and the control characters, of which five have escapes of
their own.

## Main definitions

* `Json.quote`: A text in quotes.
* `Json.line`: A document on one line.
* `Json.pretty`: A document laid out.
-/

namespace StencilRtl

namespace Json

/-- A number below sixteen as a hexadecimal digit. -/
def hexDigit (n : Nat) : Char := Nat.digitChar n

/-- One character between quotes. -/
def escaped (c : Char) : String :=
  if c = '\x22' then "\\\""
  else if c = '\\' then "\\\\"
  else if c = '\x08' then "\\b"
  else if c = '\x0c' then "\\f"
  else if c = '\n' then "\\n"
  else if c = '\r' then "\\r"
  else if c = '\t' then "\\t"
  else if c.toNat < 0x20 then
    String.ofList ['\\', 'u', '0', '0', hexDigit (c.toNat / 16), hexDigit (c.toNat % 16)]
  else c.toString

/-- A text in quotes. -/
def quote (text : String) : String :=
  "\"" ++ String.join (text.toList.map escaped) ++ "\""

mutual

/-- A document on one line, without blanks. -/
def line : Json → String
  | .null => "null"
  | .bool true => "true"
  | .bool false => "false"
  | .number value => value.text
  | .text value => quote value
  | .list items => "[" ++ String.intercalate "," (itemLines items) ++ "]"
  | .object members => "\x7b" ++ String.intercalate "," (memberLines members) ++ "\x7d"

/-- The items of a list on one line each. -/
def itemLines : List Json → List String
  | [] => []
  | item :: rest => item.line :: itemLines rest

/-- The members of an object on one line each. -/
def memberLines : List (String × Json) → List String
  | [] => []
  | (name, value) :: rest => (quote name ++ ":" ++ value.line) :: memberLines rest

end

/-- Two spaces for each level. -/
def indent (level : Nat) : String :=
  String.ofList (List.replicate (2 * level) ' ')

/-- Parts on indented lines of their own, between brackets. -/
def block (opening closing : String) (level : Nat) (parts : List String) : String :=
  if parts = [] then opening ++ closing
  else
    opening ++ "\n"
      ++ String.intercalate ",\n" (parts.map (indent (level + 1) ++ ·))
      ++ "\n" ++ indent level ++ closing

mutual

/-- A document laid out, standing `level` levels deep. -/
def prettyAt (level : Nat) : Json → String
  | .null => "null"
  | .bool true => "true"
  | .bool false => "false"
  | .number value => value.text
  | .text value => quote value
  | .list items => block "[" "]" level (prettyItems (level + 1) items)
  | .object members => block "\x7b" "\x7d" level (prettyMembers (level + 1) members)

/-- The items of a list, each laid out. -/
def prettyItems (level : Nat) : List Json → List String
  | [] => []
  | item :: rest => prettyAt level item :: prettyItems level rest

/-- The members of an object, each laid out. -/
def prettyMembers (level : Nat) : List (String × Json) → List String
  | [] => []
  | (name, value) :: rest =>
      (quote name ++ ": " ++ prettyAt level value) :: prettyMembers level rest

end

/-- A document laid out. -/
def pretty (value : Json) : String := prettyAt 0 value

end Json

end StencilRtl
