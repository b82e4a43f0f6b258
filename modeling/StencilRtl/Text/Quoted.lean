import StencilRtl.Text.Visible

/-!
# Quoted text

Text written between double quotes for a person to read: the quote and the
backslash are escaped, the common blanks have short escapes, and every other
character that does not show is written by its code point.

## Main definitions

* `Text.escaped`: One character as it stands between the quotes.
* `Text.quoted`: The quoted form of a text.
-/

namespace StencilRtl

namespace Text

/-- One character as it stands between the quotes. -/
def escaped (c : Char) : String :=
  if c = '\x22' then "\\\""
  else if c = '\\' then "\\\\"
  else if c = '\n' then "\\n"
  else if c = '\t' then "\\t"
  else if c = '\r' then "\\r"
  else if c = '\x00' then "\\0"
  else if shows c then c.toString
  else "\\u\x7b" ++ String.ofList (Nat.toDigits 16 c.toNat) ++ "\x7d"

/-- `text` between double quotes, with everything that does not show escaped. -/
def quoted (text : String) : String :=
  "\"" ++ String.join (text.toList.map escaped) ++ "\""

end Text

end StencilRtl
