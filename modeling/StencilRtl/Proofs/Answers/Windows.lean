import Mathlib.Algebra.BigOperators.Group.List.Lemmas
import StencilRtl.Proofs.Answers.Outcomes
import StencilRtl.Proofs.Rtl.Streams
import StencilRtl.Proofs.Scan.Frames

/-!
# Small Windows

Shapes that are small enough for whatever is computed of them.

A window may have so many elements, or elements of so many bits, that its bits cannot be
counted in a word, and every number that is derived from such a shape gives way sooner or
later. If the elements can be counted in 32 bits there is room for everything: an element has
fewer than `2 ^ 32` bits as well, so the bits of a window are a word, and what is smaller than
a window, such as a place or a number of rows, is one all the more.

A module can be declared if its signals have bits. `Body.answers_join` puts that together from
the items, most of which are no declarations.

## Main definitions

* `Shape.Small`: A checked window whose elements can be counted in 32 bits.
* `Component.Small`: A component whose ports are small.

## Theorems

* `Shape.Small.dataWidth_eq`: The bits of a small window are a word.
* `Shape.Small.answers_signals`, `Component.Small.answers_modulePorts`: Its signals have bits.
* `Body.answers_join`: Items that can be declared can be declared together.
-/

namespace StencilRtl

open Fallible

/-- No extent of a box is larger than the number of its elements. -/
theorem lt_of_mem_extents {extents : List Nat} {most : Nat} (hpos : ∀ n ∈ extents, 0 < n)
    (helems : extents.prod < most) : ∀ n ∈ extents, n < most := fun _ hn =>
  Nat.lt_of_le_of_lt (Nat.le_of_dvd (List.prod_pos_iff_forall_pos_nat.mpr hpos) (List.dvd_prod hn))
    helems

namespace Shape

/-- Without a handshake nothing is checked but the bits and the extents. -/
theorem validate_of_plain {s : Shape} (hplain : s.isStream = false) (hbits : 0 < s.elem.bits)
    (hextents : ∀ extent ∈ s.extents, 0 < extent) : s.validate = .ok () := by
  unfold validate
  rw [if_neg (Nat.ne_of_gt hbits), if_neg fun hzero => absurd (hextents 0 hzero) (by omega),
    if_neg (by simp [hplain])]

/-- Both containers of a stream are checked alike. -/
theorem validate_withKind {s : Shape} {kind : WireKind} (hstream : s.isStream = true)
    (hkind : (s.withKind kind).isStream = true) : (s.withKind kind).validate = s.validate := by
  unfold validate
  rw [if_pos hstream, if_pos hkind]
  rfl

/-- A checked window whose elements can be counted in 32 bits. Its image and the depth of its
    queue are words, one more of the latter. -/
structure Small (s : Shape) : Prop where
  valid : s.validate = .ok ()
  bits_lt : s.elem.bits < 2 ^ 32
  elems_lt : s.extents.prod < 2 ^ 32
  stores_lt : ∀ store ∈ s.storeExtents, store < Word.limit
  depth_lt : s.isStream = true → s.fifoDepth + 1 < Word.limit

namespace Small

variable {s : Shape} (h : s.Small)

include h

theorem bits_pos : 0 < s.elem.bits := (validate_ok h.valid).1

theorem extent_pos : ∀ extent ∈ s.extents, 0 < extent := (validate_ok h.valid).2.1

theorem extent_lt : ∀ extent ∈ s.extents, extent < 2 ^ 32 :=
  lt_of_mem_extents h.extent_pos h.elems_lt

theorem prod_pos : 0 < s.extents.prod := List.prod_pos_iff_forall_pos_nat.mpr h.extent_pos

theorem width_pos : 0 < s.extents.prod * s.elem.bits := Nat.mul_pos h.prod_pos h.bits_pos

/-- Two numbers of 32 bits make a word when they are multiplied. -/
theorem width_lt : s.extents.prod * s.elem.bits + 1 < Word.limit := by
  have helems := h.elems_lt
  have hbits := h.bits_lt
  have hmul : s.extents.prod * s.elem.bits ≤ (2 ^ 32 - 1) * (2 ^ 32 - 1) :=
    Nat.mul_le_mul (by omega) (by omega)
  have hlimit : Word.limit = 2 ^ 64 := rfl
  omega

theorem elems_eq : s.elems = .ok s.extents.prod := by
  have hlimit : Word.limit = 2 ^ 64 := rfl
  exact Word.product_returns h.extent_pos (by have := h.elems_lt; omega)

theorem dataWidth_eq : s.dataWidth = .ok (s.extents.prod * s.elem.bits) :=
  dataWidth_returns h.extent_pos h.bits_pos (Nat.lt_of_succ_lt h.width_lt)

theorem answers_dataWidth : Answers s.dataWidth (0 < ·) := .of_ok h.dataWidth_eq h.width_pos

/-- All signals of a small shape have bits. -/
theorem answers_signals (name : String) (direction : Direction) :
    Answers (s.signals name direction) fun signals => ∀ x ∈ signals, 0 < x.width := by
  have hwidth := h.width_pos
  refine .bind_of_ok h.dataWidth_eq ?_
  cases s.kind with
  | scalar => simp [hwidth]
  | stencil => simp [hwidth]
  | stream => simp [hwidth]
  | busStream => simp [hwidth]

theorem framed (hstream : s.isStream = true) : s.Framed :=
  framed_of_validate hstream h.valid h.stores_lt

/-- The other container of a stream is small as well. -/
theorem withKind {kind : WireKind} (hstream : s.isStream = true)
    (hkind : (s.withKind kind).isStream = true) : (s.withKind kind).Small where
  valid := (validate_withKind hstream hkind).trans h.valid
  bits_lt := h.bits_lt
  elems_lt := h.elems_lt
  stores_lt := h.stores_lt
  depth_lt _ := h.depth_lt hstream

/-- Without its handshake a window is no larger. -/
theorem asStencil : s.asStencil.Small where
  valid := validate_of_plain rfl h.bits_pos h.extent_pos
  bits_lt := h.bits_lt
  elems_lt := h.elems_lt
  stores_lt := List.forall_mem_nil _
  depth_lt hstream := absurd hstream (by simp [isStream, Shape.asStencil])

/-- A checked image of words may take the place of another one. -/
theorem withStoreExtents {stores : List Nat}
    (hvalid : (s.withStoreExtents stores).validate = .ok ())
    (hstores : ∀ store ∈ stores, store < Word.limit) : (s.withStoreExtents stores).Small where
  valid := hvalid
  bits_lt := h.bits_lt
  elems_lt := h.elems_lt
  stores_lt := hstores
  depth_lt := h.depth_lt

/-- So may another depth. -/
theorem withDepth {depth : Nat} (hdepth : depth + 1 < Word.limit) :
    Small { s with fifoDepth := depth } where
  valid := h.valid
  bits_lt := h.bits_lt
  elems_lt := h.elems_lt
  stores_lt := h.stores_lt
  depth_lt _ := hdepth

end Small

/-- A number of a few bits is a small window. -/
theorem small_uint {bits : Nat} (hpos : 0 < bits) (hlt : bits < 2 ^ 32) : (uint bits).Small where
  valid := validate_of_plain rfl hpos (List.forall_mem_nil _)
  bits_lt := hlt
  elems_lt := by simp [uint, scalar]
  stores_lt := List.forall_mem_nil _
  depth_lt hstream := absurd hstream (by simp [isStream, uint, scalar])

theorem small_bit : bit.Small := small_uint (by decide) (by decide)

end Shape

namespace Rtl.Body

@[simp]
theorem answers_wire {name : String} {width : Nat} :
    Answers (wire name width) (fun _ => True) ↔ 0 < width := by
  unfold wire
  split <;> simp [giveWay, Answers] <;> omega

@[simp]
theorem answers_reg {name : String} {width : Nat} :
    Answers (reg name width) (fun _ => True) ↔ 0 < width := by
  unfold reg
  split <;> simp [giveWay, Answers] <;> omega

@[simp]
theorem answers_memory {name : String} {width depth : Nat} :
    Answers (memory name width depth) (fun _ => True) ↔ 0 < width ∧ 0 < depth := by
  unfold memory
  split <;> simp [giveWay, Answers] <;> omega

@[simp]
theorem answers_item (i : Item) : Answers (item i) fun _ => True := trivial

@[simp]
theorem answers_items (is : List Item) : Answers (items is) fun _ => True := trivial

@[simp]
theorem answers_assign (target : String) (value : Expr) :
    Answers (assign target value) fun _ => True := trivial

@[simp]
theorem answers_register (target : String) (initial : Expr) (updates : List (Expr × Expr)) :
    Answers (register target initial updates) fun _ => True := trivial

@[simp]
theorem answers_enabled (target enable value : Expr) :
    Answers (enabled target enable value) fun _ => True := trivial

/-- Items that can all be declared can be declared together. -/
theorem answers_join {bodies : List Body} (h : ∀ b ∈ bodies, Answers b fun _ => True) :
    Answers (join bodies) fun _ => True := by
  induction bodies with
  | nil => trivial
  | cons b rest ih =>
      rw [List.forall_mem_cons] at h
      exact h.1.bind fun _ _ => (ih h.2).bind fun _ _ => trivial

theorem answers_join_map {α : Type} {f : α → Body} {xs : List α}
    (h : ∀ x ∈ xs, Answers (f x) fun _ => True) : Answers (join (xs.map f)) fun _ => True :=
  answers_join (List.forall_mem_map.mpr h)

@[simp]
theorem answers_net {name : String} {width : Nat} {value : Expr} :
    Answers (net name width value) (fun _ => True) ↔ 0 < width := by
  refine ⟨fun h => ?_, fun h => answers_join (by simp [h])⟩
  by_contra hzero
  rw [Nat.eq_zero_of_not_pos hzero] at h
  exact h

end Rtl.Body

namespace Component

/-- All ports of a component are small. -/
def Small (c : Component) : Prop := ∀ p ∈ c.ports, p.2.1.Small

variable {c d : Component} {name : String} {shape : Shape}

theorem small_iff : c.Small ↔ (∀ p ∈ c.inputs, p.2.Small) ∧ ∀ p ∈ c.outputs, p.2.Small := by
  rw [Small, ports, List.forall_mem_append, List.forall_mem_map, List.forall_mem_map]

/-- A component is born with single bits. -/
theorem small_ofKind (instanceName : String) (kind : ComponentKind) :
    (ofKind instanceName kind).Small := by
  rw [small_iff]
  unfold ofKind
  split
  · exact ⟨List.forall_mem_singleton.mpr Shape.small_bit,
      List.forall_mem_singleton.mpr Shape.small_bit⟩
  · exact ⟨List.forall_mem_nil _, List.forall_mem_nil _⟩

namespace Small

variable (h : c.Small)

include h

theorem portShape (hport : c.portShape name = .ok shape) : shape.Small := by
  rcases mem_ports_of_portShape hport with ⟨direction, hmem⟩
  exact h _ hmem

theorem answers_portShape : Answers (c.portShape name) Shape.Small := by
  cases hport : c.portShape name with
  | ok shape => exact h.portShape hport
  | error failure =>
      unfold Component.portShape at hport
      split at hport
      · exact absurd hport (by simp)
      · rw [← hport]
        trivial

theorem answers_addInput (hshape : shape.Small) : Answers (c.addInput name shape) Small := by
  rw [small_iff] at h
  unfold addInput
  split
  · trivial
  · exact small_iff.mpr
      ⟨List.forall_mem_append.mpr ⟨h.1, List.forall_mem_singleton.mpr hshape⟩, h.2⟩

theorem answers_addOutput (hshape : shape.Small) : Answers (c.addOutput name shape) Small := by
  rw [small_iff] at h
  unfold addOutput
  split
  · trivial
  · exact small_iff.mpr
      ⟨h.1, List.forall_mem_append.mpr ⟨h.2, List.forall_mem_singleton.mpr hshape⟩⟩

/-- All ports of the module of a small component have bits. -/
theorem answers_modulePorts : Answers c.modulePorts fun ports => ∀ p ∈ ports, 0 < p.width := by
  have hport : ∀ p ∈ c.ports, Answers (Rtl.Port.ofShape p.1 p.2.1 p.2.2) fun own =>
      ∀ q ∈ own, 0 < q.width := fun p hp =>
    ((h p hp).answers_signals p.1 p.2.2).bind fun _ hsignals => List.forall_mem_map.mpr hsignals
  exact (Answers.mapM_flatten hport).bind fun _ hall =>
    List.forall_mem_append.mpr ⟨by decide, hall⟩

end Small

end Component

end StencilRtl
