import StencilRtl.Decimal.Numeral

/-!
# Document tokens

The tokens of a JSON document and how they are read off its text.

A document is split into brackets, separators, words, numbers and texts before
any of it is understood; blanks between tokens leave no trace. Reading proceeds
with a bound on the number of steps that is the length of the text, and every
step takes at least one character, so the bound is never what ends a reading.

Texts are read with their escapes undone. An escape by code point may name half
of a surrogate pair only if the other half follows at once; a control character
has to be escaped. Words are read letter by letter, so that `trueish` is a word
followed by one that does not exist.

## Main definitions

* `Json.Token`: A token.
* `Json.Token.ofText?`: The tokens of a text.
-/

namespace StencilRtl

namespace Json

/-- A token of a document. -/
inductive Token where
  | openList
  | closeList
  | openObject
  | closeObject
  | comma
  | colon
  | null
  | bool (value : Bool)
  | number (value : Numeral)
  | text (value : String)
  deriving DecidableEq, Repr

/-- Blanks between tokens: space, tab, line feed and carriage return. -/
def isBlank (c : Char) : Bool :=
  c = ' ' || c = '\t' || c = '\n' || c = '\r'

/-- An ASCII digit. -/
def isDigit (c : Char) : Bool :=
  '0' ≤ c && c ≤ '9'

/-- The value of a digit. -/
def digitValue (c : Char) : Nat := c.toNat - 48

/-- The value of a hexadecimal digit. -/
def hexValue? (c : Char) : Option Nat :=
  if '0' ≤ c && c ≤ '9' then some (c.toNat - 48)
  else if 'a' ≤ c && c ≤ 'f' then some (c.toNat - 87)
  else if 'A' ≤ c && c ≤ 'F' then some (c.toNat - 55)
  else none

/-- A code unit of four hexadecimal digits, and the text after it. -/
def codeUnit? : List Char → Option (Nat × List Char)
  | a :: b :: c :: d :: rest => do
      let a ← hexValue? a
      let b ← hexValue? b
      let c ← hexValue? c
      let d ← hexValue? d
      return (((a * 16 + b) * 16 + c) * 16 + d, rest)
  | _ => none

/-- The character named by an escape by code point, from behind the `u` on. A
    high surrogate takes the escape of its low surrogate with it. -/
def codePoint? (chars : List Char) : Option (Char × List Char) := do
  let (unit, rest) ← codeUnit? chars
  if 0xdc00 ≤ unit ∧ unit ≤ 0xdfff then none
  else if 0xd800 ≤ unit ∧ unit ≤ 0xdbff then
    match rest with
    | '\\' :: 'u' :: more => do
        let (low, rest) ← codeUnit? more
        if 0xdc00 ≤ low ∧ low ≤ 0xdfff then
          return (Char.ofNat (0x10000 + (unit - 0xd800) * 0x400 + (low - 0xdc00)), rest)
        else none
    | _ => none
  else return (Char.ofNat unit, rest)

/-- The character named by an escape, from behind the backslash on. -/
def escape? : List Char → Option (Char × List Char)
  | '\x22' :: rest => some ('\x22', rest)
  | '\\' :: rest => some ('\\', rest)
  | '/' :: rest => some ('/', rest)
  | 'b' :: rest => some ('\x08', rest)
  | 'f' :: rest => some ('\x0c', rest)
  | 'n' :: rest => some ('\n', rest)
  | 'r' :: rest => some ('\r', rest)
  | 't' :: rest => some ('\t', rest)
  | 'u' :: rest => codePoint? rest
  | _ => none

/-- The characters up to the closing quote, and the text after it. -/
def textBody? : Nat → List Char → Option (List Char × List Char)
  | 0, _ => none
  | _ + 1, [] => none
  | fuel + 1, c :: rest =>
      if c = '\x22' then some ([], rest)
      else if c = '\\' then do
        let (c, rest) ← escape? rest
        let (body, rest) ← textBody? fuel rest
        return (c :: body, rest)
      else if c.toNat < 0x20 then none
      else do
        let (body, rest) ← textBody? fuel rest
        return (c :: body, rest)

/-- The digits at the front, by value, and the text after them. -/
def digits (chars : List Char) : List Nat × List Char :=
  ((chars.takeWhile isDigit).map digitValue, chars.dropWhile isDigit)

/-- The digits before the point: a zero, or digits that do not begin with
    one. -/
def wholePart? (chars : List Char) : Option (List Nat × List Char) :=
  match digits chars with
  | ([], _) => none
  | (0 :: _ :: _, _) => none
  | (whole, rest) => some (whole, rest)

/-- The digits after a point. Without a point there are none; with one there is
    at least one. -/
def fractionPart? : List Char → Option (List Nat × List Char)
  | '.' :: rest =>
      match digits rest with
      | ([], _) => none
      | (fraction, rest) => some (fraction, rest)
  | rest => some ([], rest)

/-- The exponent without its sign: at least one digit. -/
def exponentDigits? (negative : Bool) (chars : List Char) : Option (Option Int × List Char) :=
  match digits chars with
  | ([], _) => none
  | (exponent, rest) =>
      let magnitude : Int := Numeral.valueOf exponent
      some (some (if negative then -magnitude else magnitude), rest)

/-- The exponent after an `e` of either case, with an optional sign. -/
def exponentPart? : List Char → Option (Option Int × List Char)
  | c :: rest =>
      if c = 'e' || c = 'E' then
        match rest with
        | '-' :: rest => exponentDigits? true rest
        | '+' :: rest => exponentDigits? false rest
        | rest => exponentDigits? false rest
      else some (none, c :: rest)
  | [] => some (none, [])

/-- A number without its sign. -/
def magnitude? (negative : Bool) (chars : List Char) : Option (Numeral × List Char) := do
  let (whole, rest) ← wholePart? chars
  let (fraction, rest) ← fractionPart? rest
  let (exponent, rest) ← exponentPart? rest
  return (⟨negative, whole, fraction, exponent⟩, rest)

/-- A number. -/
def number? : List Char → Option (Numeral × List Char)
  | '-' :: rest => magnitude? true rest
  | rest => magnitude? false rest

/-- The text after `word`, if the text begins with it. -/
def after? (word chars : List Char) : Option (List Char) :=
  if word.isPrefixOf chars then some (chars.drop word.length) else none

namespace Token

/-- The token at the front of a text that does not begin with a blank, and the
    text after it. -/
def next? (fuel : Nat) : List Char → Option (Token × List Char)
  | '[' :: rest => some (.openList, rest)
  | ']' :: rest => some (.closeList, rest)
  | '\x7b' :: rest => some (.openObject, rest)
  | '\x7d' :: rest => some (.closeObject, rest)
  | ',' :: rest => some (.comma, rest)
  | ':' :: rest => some (.colon, rest)
  | '\x22' :: rest => do
      let (body, rest) ← textBody? fuel rest
      return (.text (String.ofList body), rest)
  | 'n' :: rest => (after? ['u', 'l', 'l'] rest).map fun rest => (.null, rest)
  | 't' :: rest => (after? ['r', 'u', 'e'] rest).map fun rest => (.bool true, rest)
  | 'f' :: rest => (after? ['a', 'l', 's', 'e'] rest).map fun rest => (.bool false, rest)
  | chars => do
      let (value, rest) ← number? chars
      return (.number value, rest)

/-- The tokens of a list of characters, in at most `fuel` steps. -/
def ofChars? : Nat → List Char → Option (List Token)
  | _, [] => some []
  | 0, _ :: _ => none
  | fuel + 1, c :: rest =>
      if isBlank c then ofChars? fuel rest
      else do
        let (token, rest) ← next? (fuel + 1) (c :: rest)
        let tokens ← ofChars? fuel rest
        return token :: tokens

/-- The tokens of a text. -/
def ofText? (text : String) : Option (List Token) :=
  let chars := text.toList
  ofChars? (chars.length + 1) chars

end Token

end Json

end StencilRtl
