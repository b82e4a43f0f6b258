import StencilRtl.Proofs.Words
import StencilRtl.Shape

/-!
# Signals of a Shape

What a port spreads into, wherever it stands.

The signals of a port have names that begin with the name of the port, and directions that
depend on its direction. What is left without these two is the same for all ports of a
shape: one line, or the three or four lines of a stream, one of which travels against it.

## Main definitions

* `Line`, `Shape.lines`: The signals of a shape.

## Theorems

* `Shape.dataWidth_ok`, `Shape.dataWidth_returns`: There is room for exactly the elements of a
  window.
* `Shape.signals_ok`: Signals are lines with a name and a direction.
-/

namespace StencilRtl

/-- One signal of a shape: the ending of its name, its width, and whether it travels
    against the stream. -/
structure Line where
  ending : String
  width : Nat
  backward : Bool
  deriving DecidableEq, Repr

namespace Line

/-- The direction of a line of a port. -/
def direction (l : Line) (port : Direction) : Direction := if l.backward then port.flip else port

/-- The signal of a line. -/
def signal (l : Line) (name : String) (port : Direction) : Signal :=
  ⟨name ++ l.ending, l.width, l.direction port, l.backward⟩

end Line

namespace Shape

/-- The signals of a shape. -/
def lines (s : Shape) : List Line :=
  let width := s.extents.prod * s.elem.bits
  match s.kind with
  | .scalar => [⟨"", width, false⟩]
  | .stencil => [⟨"", width, false⟩]
  | .stream => [⟨"_value", width, false⟩, ⟨"_valid", 1, false⟩, ⟨"_ready", 1, true⟩]
  | .busStream =>
      [⟨"_TDATA", width, false⟩, ⟨"_TVALID", 1, false⟩, ⟨"_TREADY", 1, true⟩, ⟨"_TLAST", 1, false⟩]

theorem dataWidth_ok {s : Shape} {width : Nat} (h : s.dataWidth = .ok width) :
    width = s.extents.prod * s.elem.bits := by
  rcases Fallible.bind_ok.mp h with ⟨elems, helems, hmul⟩
  rw [← (Word.mul_eq_ok.mp hmul).2, Word.product_ok helems]

/-- There is room for a window that is not empty, if it has few enough bits. -/
theorem dataWidth_returns {s : Shape} (hextents : ∀ extent ∈ s.extents, 0 < extent)
    (hbits : 0 < s.elem.bits) (h : s.extents.prod * s.elem.bits < Word.limit) :
    s.dataWidth = .ok (s.extents.prod * s.elem.bits) := by
  have helems : s.extents.prod < Word.limit :=
    Nat.lt_of_le_of_lt (Nat.le_mul_of_pos_right _ hbits) h
  rw [dataWidth, elems, Word.product_returns hextents helems]
  exact Word.mul_eq_ok.mpr ⟨h, rfl⟩

/-- Signals are lines with a name and a direction. -/
theorem signals_ok {s : Shape} {name : String} {port : Direction} {signals : List Signal}
    (h : s.signals name port = .ok signals) :
    signals = s.lines.map fun l => l.signal name port := by
  rcases Fallible.bind_ok.mp h with ⟨width, hwidth, hsignals⟩
  rcases dataWidth_ok hwidth with rfl
  rw [← Except.ok.inj hsignals, lines]
  cases s.kind with
  | scalar => rfl
  | stencil => rfl
  | stream => rfl
  | busStream => rfl

/-- A shape without a handshake has one line. -/
theorem lines_plain {s : Shape} (h : s.isStream = false) :
    s.lines = [⟨"", s.extents.prod * s.elem.bits, false⟩] := by
  unfold lines
  cases hkind : s.kind with
  | scalar => rfl
  | stencil => rfl
  | stream => simp [isStream, hkind] at h
  | busStream => simp [isStream, hkind] at h

/-- A stream has one line that travels against it, other shapes have none. -/
theorem backward_iff {s : Shape} : (∃ l ∈ s.lines, l.backward = true) ↔ s.isStream = true := by
  unfold lines isStream
  cases s.kind with
  | scalar => simp
  | stencil => simp
  | stream => simp
  | busStream => simp

end Shape

end StencilRtl
