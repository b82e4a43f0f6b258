/-!
# Names

Buffers of a kernel carry dotted names such as `blur_x.stencil.stream`. The
last part tells what a buffer is, the first part what it belongs to, and the
hardware uses the whole name with every character a netlist identifier cannot
contain replaced.

## Main definitions

* `printName`: The identifier made from a name.
* `rootName`: What stands before the first dot.
* `isStreamName`, `isStencilName`: What a name says about its buffer.
-/

namespace StencilRtl

/-- Whether `c` is a letter or digit of the ASCII range, the characters an
    identifier keeps. -/
def isIdentifierChar (c : Char) : Bool := c.isAlphanum

/-- The identifier made from `name`: one character for each, with an underscore
    for everything but ASCII letters and digits. -/
def printName (name : String) : String :=
  String.ofList (name.toList.map fun c => if isIdentifierChar c then c else '_')

/-- The part of `name` before its first dot. -/
def rootName (name : String) : String :=
  String.ofList (name.toList.takeWhile (· != '.'))

/-- Whether `name` ends in `suffix`. -/
def endsWith (name ending : String) : Bool :=
  ending.toList.isSuffixOf name.toList

/-- Names of stream buffers end in `.stream`. -/
def isStreamName (name : String) : Bool :=
  endsWith name ".stream"

/-- Names of stencil buffers end in `.stencil` or `.stencil_update`. -/
def isStencilName (name : String) : Bool :=
  endsWith name ".stencil" || endsWith name ".stencil_update"

end StencilRtl
