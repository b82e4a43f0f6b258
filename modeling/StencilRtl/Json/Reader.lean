import StencilRtl.Json.Token
import StencilRtl.Json.Value

/-!
# Reading documents

From the tokens of a JSON document to the value it describes.

A document is one value. Lists and objects separate their parts by commas and
end without one. Nothing is said here about names given twice or about numbers
too large for any word: a document that is well formed has a value, and what to
make of the value is the next reader's business.

Reading is bounded by the number of tokens, and every call consumes one, so the
bound never ends a reading.

## Main definitions

* `Json.value?`: A value at the front of a list of tokens.
* `Json.ofText?`: The value of a document.
-/

namespace StencilRtl

namespace Json

mutual

/-- The value at the front of the tokens, and the tokens after it. -/
def value? : Nat → List Token → Option (Json × List Token)
  | 0, _ => none
  | _ + 1, [] => none
  | fuel + 1, token :: rest =>
      match token with
      | .null => some (.null, rest)
      | .bool value => some (.bool value, rest)
      | .number value => some (.number value, rest)
      | .text value => some (.text value, rest)
      | .openList =>
          match rest with
          | .closeList :: rest => some (.list [], rest)
          | rest => do
              let (items, rest) ← items? fuel rest
              return (.list items, rest)
      | .openObject =>
          match rest with
          | .closeObject :: rest => some (.object [], rest)
          | rest => do
              let (members, rest) ← members? fuel rest
              return (.object members, rest)
      | .closeList => none
      | .closeObject => none
      | .comma => none
      | .colon => none

/-- The items of a list that has some, through its closing bracket. -/
def items? : Nat → List Token → Option (List Json × List Token)
  | 0, _ => none
  | fuel + 1, tokens => do
      let (item, rest) ← value? fuel tokens
      match rest with
      | .closeList :: rest => return ([item], rest)
      | .comma :: rest => do
          let (items, rest) ← items? fuel rest
          return (item :: items, rest)
      | _ => none

/-- The members of an object that has some, through its closing bracket. -/
def members? : Nat → List Token → Option (List (String × Json) × List Token)
  | 0, _ => none
  | fuel + 1, tokens =>
      match tokens with
      | .text name :: .colon :: rest => do
          let (value, rest) ← value? fuel rest
          match rest with
          | .closeObject :: rest => return ([(name, value)], rest)
          | .comma :: rest => do
              let (members, rest) ← members? fuel rest
              return ((name, value) :: members, rest)
          | _ => none
      | _ => none

end

/-- The value of a document, if the text is one. -/
def ofText? (text : String) : Option Json := do
  let tokens ← Token.ofText? text
  match value? (2 * tokens.length + 1) tokens with
  | some (value, []) => return value
  | _ => none

end Json

end StencilRtl
