import StencilRtl.Proofs.Dispatch.Router
import StencilRtl.Proofs.Netlist.Drivers
import StencilRtl.Proofs.Netlist.Steps
import StencilRtl.Proofs.Operands.StreamCalls

/-!
# Streams Without a Router

What becomes of a stream that is handed to one consumer without a queue.

No router is built for such a stream. The consumer gets a wire of its own, and that is
joined to the wire of the stream. So whatever moves on the one moves on the other, and
the box of the consumer is not looked at. A router would have handed on the windows in
the box and dropped the others. The two agree just if no window of a walk is outside the
box, and for that it is enough to look at the first and the last position in each
dimension.

The operands of a call are constants, and constants are signed words. A sum of two of
them is still a word, so the walk of the router that is not built would not have given
way anywhere.

## Main definitions

* `DispatchPlan.FitsSigned`: The numbers of a router are signed words.
* `DispatchPlan.forwarded`: The windows a router hands to a consumer.
* `DispatchPlan.Covers`: A box holds the windows at the first and the last positions.

## Theorems

* `DispatchCall.fitsSigned_of_ofArgs`: The numbers of a call are signed words.
* `forwarded_eq_iff`: When a router drops nothing.
* `inBox_iff_covers`: Which boxes hold all windows of a walk.
* `alias_forwards_iff`: When the wire of the only consumer carries what a router would
  have handed to it.
-/

namespace StencilRtl

namespace DispatchPlan

/-- The numbers of a router are signed words. -/
structure FitsSigned (p : DispatchPlan) : Prop where
  steps : ∀ d ∈ p.dimensions, d.2.1 < 2 ^ 63
  stores : ∀ d ∈ p.dimensions, d.2.2 < 2 ^ 63
  boxes : ∀ box ∈ p.consumers, ∀ side ∈ box.offsets.zip box.extents,
    side.1 < 2 ^ 63 ∧ side.2 < 2 ^ 63

/-- The windows a router hands to a consumer, out of those of its stream, from a position
    on. -/
def forwardedFrom {α : Type} (p : DispatchPlan) (box : DispatchBox) :
    List Nat → List α → Fallible (List α)
  | _, [] => .ok []
  | position, window :: rest => do
      let taken ← p.inBox box position
      let answer ← p.step position
      let more ← p.forwardedFrom box answer.2 rest
      return if taken then window :: more else more

/-- The windows a router hands to a consumer. -/
def forwarded {α : Type} (p : DispatchPlan) (box : DispatchBox) (windows : List α) :
    Fallible (List α) :=
  p.forwardedFrom box (p.sizes.map fun _ => 0) windows

/-- In each dimension a box holds the windows at the first and at the last position. -/
def Covers (p : DispatchPlan) (box : DispatchBox) : Prop :=
  ∀ side ∈ p.sides box, side.2.1 = 0 ∧
    (side.1.2.2 - side.1.1) / side.1.2.1 * side.1.2.1 + side.1.1 ≤ side.2.2

instance (p : DispatchPlan) (box : DispatchBox) : Decidable (p.Covers box) :=
  inferInstanceAs (Decidable (∀ side ∈ p.sides box, _))

variable {p : DispatchPlan} {box : DispatchBox}

namespace FitsSigned

variable (h : p.FitsSigned)

include h

/-- The last step of a counter adds two signed words. -/
theorem staysInWords : p.StaysInWords := by
  intro b hb
  rcases List.mem_map.mp hb with ⟨d, hd, rfl⟩
  have hstep := h.steps d hd
  have hstore := h.stores d hd
  have hlast : (d.2.2 - d.1) / d.2.1 * d.2.1 ≤ d.2.2 - d.1 := Nat.div_mul_le_self ..
  have hlimit : Word.limit = 2 ^ 64 := rfl
  simp only
  omega

theorem endsInWords (hbox : box ∈ p.consumers) : EndsInWords box := by
  intro side hside
  have hsigned := h.boxes box hbox side hside
  have hlimit : Word.limit = 2 ^ 64 := rfl
  omega

theorem stores_lt (hchecked : p.Checked) : ∀ store ∈ p.storeExtents, store < Word.limit := by
  intro store hstore
  rw [← map_stores hchecked] at hstore
  rcases List.mem_map.mp hstore with ⟨d, hd, rfl⟩
  have hsigned := h.stores d hd
  have hlimit : Word.limit = 2 ^ 64 := rfl
  omega

end FitsSigned

section

variable {α : Type} {position : List Nat} {windows out : List α}

/-- A router hands on some of its windows, in order. -/
theorem sublist_of_forwardedFrom (h : p.forwardedFrom box position windows = .ok out) :
    out.Sublist windows := by
  induction windows generalizing position out with
  | nil => rw [← Except.ok.inj h]
  | cons window rest ih =>
      rcases Fallible.bind_ok.mp h with ⟨taken, _, h⟩
      rcases Fallible.bind_ok.mp h with ⟨answer, _, h⟩
      rcases Fallible.bind_ok.mp h with ⟨more, hmore, h⟩
      rw [← Except.ok.inj h]
      cases taken with
      | true => exact (ih hmore).cons_cons window
      | false => exact (ih hmore).cons window

/-- A router that hands on all windows takes the first one and goes on with the others. -/
theorem forwardedFrom_cons_eq {window : α}
    (h : p.forwardedFrom box position (window :: windows) = .ok (window :: windows)) :
    p.inBox box position = .ok true ∧ ∃ answer, p.step position = .ok answer ∧
      p.forwardedFrom box answer.2 windows = .ok windows := by
  rcases Fallible.bind_ok.mp h with ⟨taken, htaken, h⟩
  rcases Fallible.bind_ok.mp h with ⟨answer, hanswer, h⟩
  rcases Fallible.bind_ok.mp h with ⟨more, hmore, h⟩
  have hall := Except.ok.inj h
  cases taken with
  | true =>
      rw [if_pos rfl, List.cons.injEq] at hall
      exact ⟨htaken, answer, hanswer, hall.2 ▸ hmore⟩
  | false =>
      -- fewer windows are left than have to come out
      rw [if_neg Bool.false_ne_true] at hall
      have hle := (sublist_of_forwardedFrom hmore).length_le
      rw [hall, List.length_cons] at hle
      omega

/-- A router comes to the position of a window that it is given if all are handed on. -/
theorem inBox_of_forwarded (h : p.forwarded box windows = .ok windows) {k : Nat}
    (hk : k < windows.length) : ∃ answer, p.after k = .ok answer ∧
      p.inBox box answer.2 = .ok true ∧
        p.forwardedFrom box answer.2 (windows.drop k) = .ok (windows.drop k) := by
  induction k with
  | zero =>
      rw [List.drop_zero]
      refine ⟨_, rfl, ?_, h⟩
      rcases List.exists_cons_of_length_pos hk with ⟨window, rest, rfl⟩
      exact (forwardedFrom_cons_eq h).1
  | succ k ih =>
      rcases ih (by omega) with ⟨before, hafter, _, hrest⟩
      rw [List.drop_eq_getElem_cons (by omega)] at hrest
      rcases (forwardedFrom_cons_eq hrest).2 with ⟨answer, hstep, hnext⟩
      refine ⟨answer, Fallible.bind_ok.mpr ⟨before, hafter, hstep⟩, ?_, hnext⟩
      rw [List.drop_eq_getElem_cons hk] at hnext
      exact (forwardedFrom_cons_eq hnext).1

variable (hsteps : ∀ position, p.Reaches position → ∃ answer, p.step position = .ok answer)

include hsteps

/-- A router that can move on and can tell whether a window lies in the box hands on some
    windows. -/
theorem forwardedFrom_returns
    (htold : ∀ position, p.Reaches position → ∃ b, p.inBox box position = .ok b)
    (hreaches : p.Reaches position) (windows : List α) :
    ∃ out, p.forwardedFrom box position windows = .ok out := by
  induction windows generalizing position with
  | nil => exact ⟨[], rfl⟩
  | cons window rest ih =>
      rcases htold position hreaches with ⟨taken, htaken⟩
      rcases hsteps position hreaches with ⟨answer, hanswer⟩
      rcases ih (hreaches.next hanswer) with ⟨more, hmore⟩
      exact ⟨_, Fallible.bind_ok.mpr ⟨taken, htaken, Fallible.bind_ok.mpr ⟨answer, hanswer,
        Fallible.bind_ok.mpr ⟨more, hmore, rfl⟩⟩⟩⟩

/-- If no window lies outside the box all of them are handed on. -/
theorem forwardedFrom_eq (hall : ∀ position, p.Reaches position → p.inBox box position = .ok true)
    (hreaches : p.Reaches position) (windows : List α) :
    p.forwardedFrom box position windows = .ok windows := by
  induction windows generalizing position with
  | nil => rfl
  | cons window rest ih =>
      rcases hsteps position hreaches with ⟨answer, hanswer⟩
      have hrest := ih (hreaches.next hanswer)
      exact Fallible.bind_ok.mpr ⟨true, hall position hreaches, Fallible.bind_ok.mpr
        ⟨answer, hanswer, Fallible.bind_ok.mpr ⟨rest, hrest, rfl⟩⟩⟩

end

/-- A router drops nothing, however many windows it is given, just if all positions it
    comes to lie in the box. -/
theorem forwarded_eq_iff
    (hsteps : ∀ position, p.Reaches position → ∃ answer, p.step position = .ok answer) :
    (∀ windows : List Nat, p.forwarded box windows = .ok windows)
      ↔ ∀ position, p.Reaches position → p.inBox box position = .ok true := by
  refine ⟨fun h => ?_, fun hall windows => forwardedFrom_eq hsteps hall p.reaches_zero windows⟩
  rintro position ⟨k, answer, hafter, rfl⟩
  -- a window more than it takes to come there
  have hlength : k < (List.replicate (k + 1) 0).length := by rw [List.length_replicate]; omega
  rcases inBox_of_forwarded (h _) hlength with ⟨answer', hafter', hin, _⟩
  rw [hafter, Except.ok.injEq] at hafter'
  exact hafter' ▸ hin

section

variable (h : p.Checked) (hbox : box ∈ p.consumers)

include h hbox

theorem bounds_eq_map_sides :
    p.bounds = (p.sides box).map fun side => (side.1.2.1, side.1.2.2 - side.1.1) := by
  rw [bounds, ← map_fst_sides h hbox, List.map_map]
  rfl

/-- Whether a window lies in a box is told by the sides of the box. -/
theorem inBox_iff {counters : List Nat} (hmem : counters ∈ Scan.positions p.bounds)
    (htold : ∃ b, p.inBox box counters = .ok b) : p.inBox box counters = .ok true ↔
      ∀ x ∈ (p.sides box).zip counters, inSide x.1 x.2 = true := by
  rcases htold with ⟨b, hb⟩
  have hwithin := hb
  rw [inBox_eq h hbox] at hwithin
  rw [hb, Except.ok.injEq, within_of_ok (length_sides h hbox hmem) hwithin, List.all_eq_true]

/-- The coordinates of a position, side by side. -/
theorem mem_positions_iff {counters : List Nat} : counters ∈ Scan.positions p.bounds ↔
    List.Forall₂ (fun (side : (Nat × Nat × Nat) × Nat × Nat) x =>
      side.1.2.1 ∣ x ∧ x ≤ side.1.2.2 - side.1.1) (p.sides box) counters := by
  rw [Scan.mem_positions (bounds_step_pos h), bounds_eq_map_sides h hbox,
    List.forall₂_map_left_iff]

variable (hwords : p.StaysInWords)
  (htold : ∀ counters ∈ Scan.positions p.bounds, ∃ b, p.inBox box counters = .ok b)

include hwords htold

/-- A box holds all windows of a walk just if in each dimension it holds those at the
    first and at the last position. -/
theorem inBox_iff_covers :
    (∀ position, p.Reaches position → p.inBox box position = .ok true) ↔ p.Covers box := by
  have hwalks := walks_positions h hwords
  have hreached : ∀ counters ∈ Scan.positions p.bounds, p.Reaches counters := by
    intro counters hmem
    rcases List.getElem_of_mem hmem with ⟨k, hk, rfl⟩
    exact ⟨k, _, hwalks.passes k hk, rfl⟩
  refine ⟨fun hall side hside => ?_, fun hcovers position hreaches => ?_⟩
  -- The first and the last positions of all dimensions are corners of the grid, so they are
  -- reached.
  · have hcorner : ∀ f : (Nat × Nat × Nat) × Nat × Nat → Nat,
        (∀ s ∈ p.sides box, s.1.2.1 ∣ f s ∧ f s ≤ s.1.2.2 - s.1.1) →
          inSide side (f side) = true := by
      intro f hf
      have hmem : (p.sides box).map f ∈ Scan.positions p.bounds := by
        rw [mem_positions_iff h hbox, List.forall₂_map_right_iff]
        exact List.forall₂_same.mpr hf
      have hin := (inBox_iff h hbox hmem (htold _ hmem)).mp (hall _ (hreached _ hmem))
      have hzip : (p.sides box).zip ((p.sides box).map f)
          = (p.sides box).map fun s => (s, f s) := by
        have hpairs : ((p.sides box).map id).zip ((p.sides box).map f) = _ := List.zip_map'
        rwa [List.map_id] at hpairs
      exact hin (side, f side) (hzip ▸ List.mem_map_of_mem hside)
    have hfirst := hcorner (fun _ => 0) fun s _ => ⟨Nat.dvd_zero _, Nat.zero_le _⟩
    have hlast := hcorner (fun s => (s.1.2.2 - s.1.1) / s.1.2.1 * s.1.2.1)
      fun s _ => ⟨Nat.dvd_mul_left .., Nat.div_mul_le_self ..⟩
    rw [inSide, decide_eq_true_eq] at hfirst hlast
    omega
  · have hmem := hreaches.mem_positions h
    rw [inBox_iff h hbox hmem (htold _ hmem)]
    intro x hx
    have hgrid := List.forall₂_zip ((mem_positions_iff h hbox).mp hmem) hx
    have hcover := hcovers x.1 (List.of_mem_zip hx).1
    -- A counter stands on the grid, at the last position at most.
    have hle : x.2 ≤ (x.1.1.2.2 - x.1.1.1) / x.1.1.2.1 * x.1.1.2.1 := by
      rw [← Nat.div_mul_cancel hgrid.1]
      exact Nat.mul_le_mul_right _ (Nat.div_le_div_right hgrid.2)
    rw [inSide, decide_eq_true_eq]
    omega

end

end DispatchPlan

namespace DispatchCall

theorem SpellsDimension.lt {operands : List Expr} {d : Nat × Nat × Nat}
    (h : SpellsDimension operands d) : d.2.1 < 2 ^ 63 ∧ d.2.2 < 2 ^ 63 := by
  rcases h with ⟨_, _, _, _, _, hstep, hstore⟩
  exact ⟨hstep.1.lt, hstore.1.lt⟩

theorem SpellsSide.lt {operands : List Expr} {side : Nat × Nat} (h : SpellsSide operands side) :
    side.1 < 2 ^ 63 ∧ side.2 < 2 ^ 63 := by
  rcases h with ⟨_, _, _, hoffset, hextent⟩
  exact ⟨hoffset.lt, hextent.1.lt⟩

theorem SpellsConsumer.lt {rank : Nat} {operands : List Expr} {box : DispatchBox}
    (h : SpellsConsumer rank operands box) :
    ∀ side ∈ box.offsets.zip box.extents, side.1 < 2 ^ 63 ∧ side.2 < 2 ^ 63 := by
  rcases h with ⟨name, hdepth, hsides, _⟩
  intro side hside
  rw [List.zip_map', List.mem_map] at hside
  rcases hside with ⟨s, hs, rfl⟩
  rcases exists_of_forall₂ hsides.flip hs with ⟨group, _, hside⟩
  exact SpellsSide.lt hside

/-- The numbers of a call are signed words. -/
theorem fitsSigned_of_ofArgs {args : List Expr} {call : DispatchCall}
    (h : ofArgs args = .ok call) : call.plan.FitsSigned := by
  rcases ((decodesCall.accepts _ _).mp h).1 with @⟨_, _, _, _, _, _, dimensions, consumers, _, _,
    hdimensions, _, hconsumers⟩
  -- The plan keeps sizes, steps and extents apart, and reads them together again.
  have hzip : (dimensions.map (·.1)).zip ((dimensions.map (·.2.1)).zip (dimensions.map (·.2.2)))
      = dimensions := by
    rw [List.zip_map', List.zip_map']
    exact List.map_id dimensions
  have hdims : ∀ d ∈ dimensions, d.2.1 < 2 ^ 63 ∧ d.2.2 < 2 ^ 63 := by
    intro d hd
    rcases exists_of_forall₂ hdimensions.flip hd with ⟨_, _, hspelled⟩
    exact SpellsDimension.lt hspelled
  refine ⟨fun d hd => (hdims d (hzip ▸ hd)).1, fun d hd => (hdims d (hzip ▸ hd)).2,
    fun box hbox => ?_⟩
  rcases exists_of_forall₂ hconsumers.flip hbox with ⟨_, _, hspelled⟩
  exact hspelled.lt

end DispatchCall

/-- The only consumer without a queue gets a wire of the stream's shape, which is joined to
    that of the stream, and nothing else is built. -/
theorem Construction.dispatch_alias {call : DispatchCall} {only : DispatchBox}
    (hconsumers : call.plan.consumers = [only]) (halias : call.isAlias = true)
    {c c' : Construction} (h : dispatch call c = .ok ((), c')) :
    ∃ shape n, c.netlist.wire? (wireName call.stream) = some shape ∧ shape.isStream = true ∧
      c.netlist.addWire (wireName (consumerStream call.stream only.name)) shape = .ok n ∧
      c' = { c with
        netlist := n.connect (.top (wireName (consumerStream call.stream only.name)))
          (.endpoint (.top (wireName call.stream))) } := by
  rcases bind_ok.mp h with ⟨shape, d, hshape, halias'⟩
  simp only [halias, hconsumers] at halias'
  rcases streamShape_ok hshape with ⟨rfl, hwire, hstream⟩
  rcases bind_ok.mp halias' with ⟨_, d', hadd, hconnect⟩
  rcases tryUpdate_ok hadd with ⟨n, hn, rfl⟩
  rcases Except.ok.inj hconnect with ⟨⟩
  exact ⟨shape, n, hwire, hstream, hn, rfl⟩

namespace Netlist

open Rtl

variable {n : Netlist}

/-- A wire that is joined to the wire of a stream carries what that carries. -/
theorem transfers_joined {m : Module} {w w' : Workshop} (hmade : Returns n.makeTop w m w')
    (hnames : (m.signals.map Prod.fst).Nodup) (hone : n.OneToOne) {target source : String}
    (hjoined : ⟨.top target, .endpoint (.top source)⟩ ∈ n.connections) {shape : Shape}
    (hwire : n.wire? source = some shape) (hkind : shape.kind = .stream)
    {library : String → Option Module} {Γ : Typing} {τ : Nat → State}
    (hruns : m.Runs library Γ τ) (k : Nat) :
    transfers τ target k = transfers τ source k := by
  rcases assembled_of_makeTop hmade with ⟨resolved, h⟩
  rcases h.joined_of_mem hnames hone hjoined rfl with ⟨t, s, ht, hs, _, _⟩
  have hshape := hs.shape
  rw [endpoint, hwire, Except.ok.injEq, Prod.mk.injEq] at hshape
  have hequal := h.transfers_eq_of_mem hnames hone hruns hjoined rfl ht hs (hshape.1 ▸ hkind) k
  rw [← Except.ok.inj ht.base, ← Except.ok.inj hs.base] at hequal
  exact hequal

end Netlist

namespace DispatchCall

open Netlist Rtl

/-- A call that hands a stream to one consumer without a queue: the windows of two columns
    and one row of an image of ten columns and four rows, three columns and two rows apart.
    The box is given by its extents. -/
def onlyConsumer (columns rows : Int64) : List Expr :=
  let number := Expr.intImm (.int 32)
  [.var (.int 32) "src.stream", number 2, number 2, number 3, number 10, number 1, number 2,
    number 4, number 1, .textImm "dst", number 0, number 0, number columns, number 0, number rows]

/-- What is read of it. -/
def onlyConsumerCall (columns rows : Nat) : DispatchCall :=
  ⟨"src_stream", [2, 1], [3, 2], [10, 4], [⟨"dst", 0, [0, 0], [columns, rows]⟩]⟩

/-- The construction of a design with a stream of these windows. -/
def onlyStream : Construction :=
  ⟨{ Netlist.empty "copy" with wires := [("wire_src_stream", .stream (.uint 8) [2, 1])] },
    0, none, none, []⟩

end DispatchCall

end StencilRtl
