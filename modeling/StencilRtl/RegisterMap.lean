import StencilRtl.Shape

/-!
# The register map

Where the parameters of an accelerator are found by the host.

The slave interface occupies a range of byte addresses. A control and a status
register come first, then a reserved block, and from `parameterBase` on the
parameters in the order in which they were allocated, without gaps. Every
element of a parameter takes one 32-bit word, elements of an array following
each other with dimension 0 fastest.

## Main definitions

* `RegisterEntry`: One parameter and its addresses.
* `RegisterEntry.elements`: The address and the name of every element.
* `RegisterMap`: The parameters allocated so far.
* `RegisterMap.place`: Adding a parameter to the map at hand.
* `RegisterMap.allocate`: The map with a parameter added.
* `RegisterMap.lines`: The map as comment lines.
-/

namespace StencilRtl

/-- The control register: bit 0 starts the accelerator, bit 1 clears done. -/
def controlAddress : Nat := 0x0

/-- The status register: bit 0 is high while running. -/
def statusAddress : Nat := 0x4

/-- The first address given to parameters. -/
def parameterBase : Nat := 0x40

/-- The width of the data bus. -/
def busWidth : Nat := 32

/-- A number in hexadecimal, padded with zeros to at least `width` digits. -/
def paddedHex (width n : Nat) : String :=
  let digits := Nat.toDigits 16 n
  String.ofList (List.replicate (width - digits.length) '0' ++ digits)

/-- A parameter and its place. A scalar has no extents. -/
structure RegisterEntry where
  name : String
  offset : Nat
  elem : ElemType
  extents : List Nat
  deriving DecidableEq, Repr, Inhabited

namespace RegisterEntry

/-- Whether the parameter is an array. -/
def isArray (e : RegisterEntry) : Bool := e.extents ≠ []

/-- The number of words the parameter takes. -/
def words (e : RegisterEntry) : Fallible Nat := Word.product e.extents

/-- The number of bytes the parameter takes. -/
def bytes (e : RegisterEntry) : Fallible Nat := do
  Word.mul 4 (← e.words)

/-- One past the last byte of the parameter. -/
def past (e : RegisterEntry) : Fallible Nat := do
  Word.add e.offset (← e.bytes)

/-- Whether an address belongs to the parameter. -/
def contains (e : RegisterEntry) (address : Nat) : Fallible Bool := do
  if e.offset ≤ address then return decide (address < (← e.past)) else return false

/-- The coordinates of all elements of a box, the last one varying fastest. -/
def coordinates : List Nat → List (List Nat)
  | [] => [[]]
  | extent :: rest =>
      (List.range extent).flatMap fun i => (coordinates rest).map fun is => i :: is

/-- Coordinates in brackets. -/
def subscript (index : List Nat) : String :=
  String.join (index.map fun i => s!"[{i}]")

/-- The address and the name of every element. Coordinates are written with the
    outermost dimension first, so `w[1][0]` has 0 in dimension 0. -/
def elements (e : RegisterEntry) : List (Nat × String) :=
  if e.isArray then
    (coordinates e.extents.reverse).mapIdx fun flat index =>
      (e.offset + 4 * flat, e.name ++ subscript index)
  else [(e.offset, e.name)]

end RegisterEntry

/-- The parameters allocated so far. The next one begins at `cursor`. -/
structure RegisterMap where
  entries : List RegisterEntry
  cursor : Nat
  deriving DecidableEq, Repr

namespace RegisterMap

/-- The map without parameters. -/
def empty : RegisterMap := ⟨[], parameterBase⟩

instance : Inhabited RegisterMap := ⟨empty⟩

/-- The last parameter begins behind the one before it. -/
def checkLast (m : RegisterMap) : Fallible Unit :=
  match m.entries.reverse with
  | last :: before :: _ => do
      let past ← before.past
      if last.offset < past then
        malformed (.registerOverlap last.name last.offset before.name past)
  | _ => .ok ()

/-- Work on a register map. What was changed before a failure stays changed. -/
abbrev Allocating := ExceptT Failure (StateM RegisterMap)

/-- The entry of a parameter that is put at the end of the map. -/
def entryFor (m : RegisterMap) (name : String) (shape : Shape) : RegisterEntry :=
  ⟨name, m.cursor, shape.elem, shape.extents⟩

/-- Add a parameter of some shape at the end of the map. The map is checked with the
    parameter already in it. -/
def place (name : String) (shape : Shape) : Allocating RegisterEntry := do
  let m ← get
  if busWidth < shape.elem.bits then
    unsupported (.wideParameter name shape.text busWidth)
  else if m.entries.any fun e => e.name = name then
    malformed (.parameterTwice name)
  else
    let entry := m.entryFor name shape
    let past ← entry.past
    let placed : RegisterMap := ⟨m.entries ++ [entry], past⟩
    set placed
    placed.checkLast
    return entry

/-- The map with a parameter of some shape added, if that succeeds. -/
def allocate (m : RegisterMap) (name : String) (shape : Shape) :
    Fallible (RegisterMap × RegisterEntry) :=
  match (place name shape).run.run m with
  | (.ok entry, placed) => .ok (placed, entry)
  | (.error failure, _) => .error failure

/-- The parameter called `name`. -/
def find? (m : RegisterMap) (name : String) : Option RegisterEntry :=
  m.entries.find? fun e => e.name = name

/-- Whether ranges follow each other from `past` on, within the map. -/
def validateFrom (m : RegisterMap) : Nat → List RegisterEntry → Fallible Unit
  | _, [] => .ok ()
  | past, e :: rest =>
      if e.offset < past then malformed (.registerCollision e.name e.offset)
      else do
        let next ← e.past
        if m.cursor < next then malformed (.registerCollision e.name e.offset)
        else validateFrom m next rest

/-- Ranges are disjoint, increasing and above the reserved block. -/
def validate (m : RegisterMap) : Fallible Unit := m.validateFrom parameterBase m.entries

/-- A line saying what is found at an address. -/
def lineAt (address : Nat) (what : String) : String :=
  "0x" ++ paddedHex 8 address ++ " : " ++ what

/-- The addresses of the reserved block. -/
def reserved : List Nat :=
  (List.range ((parameterBase - statusAddress) / 4 - 1)).map fun i => statusAddress + 4 + 4 * i

/-- The map as comment lines, without the comment marks. -/
def lines (m : RegisterMap) : List String :=
  ["------------------ Register Map -----------------",
   lineAt controlAddress "CTRL",
   "             [0]: Start (write 1 to start, auto cleared)",
   "             [1]: Done (set when all blocks are done, write 1 to clear)",
   lineAt statusAddress "STATUS (read-only)",
   "             [0]: Run (1 while running)"]
    ++ reserved.map (lineAt · "reserved")
    ++ (m.entries.flatMap RegisterEntry.elements).map (fun (address, name) => lineAt address name)
    ++ ["------------------ End of Register Map ----------"]

end RegisterMap

end StencilRtl
