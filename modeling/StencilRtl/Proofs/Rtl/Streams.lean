import Mathlib.Data.List.GetD
import StencilRtl.Hardware.Library
import StencilRtl.Proofs.Rtl.Logic
import StencilRtl.Proofs.Signals

/-!
# Streams of a Run

What moves on the streams of a module, cycle by cycle.

A word moves on a stream in the cycles in which it is both offered and taken. The
state `τ (t + 1)` is the one that `t` cycles after the reset have led to, so all that
is known of it is known in terms of `transfers τ stream t`, the words that have moved
in these cycles. No cycle before that counts: while the reset is given anything may
happen.

A module has the signals of a stream if one of its ports has the shape of a stream,
and then a word has room for exactly the elements of a window.

## Main definitions

* `Rtl.FromReset`: A run that starts with a reset.
* `Rtl.transfers`: The words that have moved on a stream.
* `Rtl.Module.Carries`: A module has the signals of a stream.

## Theorems

* `Rtl.transfers_succ`: One more cycle.
* `Rtl.transfers_congr`: Streams that agree carry the same words.
* `Rtl.Module.carries_of_ofShape`: The ports of a stream are its signals.
* `Component.modulePorts_ok`: What is among the ports of a component's module.
-/

namespace StencilRtl

/-- What is picked from some numbers, when there is one more. -/
theorem filter_map_range_succ {α : Type} (p : Nat → Bool) (f : Nat → α) (t : Nat) :
    ((List.range (t + 1)).filter p).map f
      = ((List.range t).filter p).map f ++ if p t then [f t] else [] := by
  rw [List.range_succ, List.filter_append, List.map_append]
  cases h : p t with
  | true => simp only [List.filter_cons, h, if_true, List.filter_nil, List.map_cons, List.map_nil]
  | false => simp only [List.filter_cons, h, Bool.false_eq_true, if_false, List.filter_nil,
      List.map_nil]

theorem getD_concat_length (xs : List Nat) (x : Nat) : (xs ++ [x]).getD xs.length 0 = x := by
  rw [List.getD_append_right _ _ _ _ (Nat.le_refl _), Nat.sub_self]
  rfl

namespace Rtl

/-- The reset is given in the first cycle and never again. -/
structure FromReset (τ : Nat → State) : Prop where
  first : (τ 0).value reset = 1
  later : ∀ t, (τ (t + 1)).value reset = 0

/-- A word moves on a stream: it is offered and taken. -/
def State.Moves (s : State) (stream : String) : Prop :=
  s.value (stream ++ "_valid") = 1 ∧ s.value (stream ++ "_ready") = 1

instance (s : State) (stream : String) : Decidable (s.Moves stream) :=
  inferInstanceAs (Decidable (_ ∧ _))

/-- The words that have moved on a stream in the first `t` cycles after the reset. -/
def transfers (τ : Nat → State) (stream : String) (t : Nat) : List Nat :=
  ((List.range t).filter fun k => (τ (k + 1)).Moves stream).map fun k =>
    (τ (k + 1)).value (stream ++ "_value")

/-- A module has the signals of a stream. -/
structure Module.Carries (m : Module) (stream : String) (width : Nat) : Prop where
  value : (stream ++ "_value", width) ∈ m.signals
  valid : (stream ++ "_valid", 1) ∈ m.signals
  ready : (stream ++ "_ready", 1) ∈ m.signals

section

variable {τ : Nat → State} {stream : String}

theorem transfers_zero : transfers τ stream 0 = [] := rfl

/-- One more cycle. -/
theorem transfers_succ (t : Nat) : transfers τ stream (t + 1) = transfers τ stream t
    ++ if (τ (t + 1)).Moves stream then [(τ (t + 1)).value (stream ++ "_value")] else [] := by
  simpa only [transfers, decide_eq_true_eq] using filter_map_range_succ (fun k =>
    decide ((τ (k + 1)).Moves stream)) (fun k => (τ (k + 1)).value (stream ++ "_value")) t

theorem length_transfers_succ (t : Nat) : (transfers τ stream (t + 1)).length
    = (transfers τ stream t).length + if (τ (t + 1)).Moves stream then 1 else 0 := by
  rw [transfers_succ, List.length_append]
  split
  · rw [List.length_singleton]
  · rw [List.length_nil]

/-- A signal of the stream bounds what moves on it. -/
theorem transfers_lt {library : String → Option Module} {m : Module} {Γ : Typing} {width : Nat}
    (h : m.Runs library Γ τ) (hstream : m.Carries stream width) (t : Nat) :
    ∀ v ∈ transfers τ stream t, v < 2 ^ width := by
  intro v hv
  rcases List.mem_map.mp hv with ⟨k, _, rfl⟩
  exact h.value_lt hstream.value (k + 1)

/-- Two streams that agree after the reset carry the same words. -/
theorem transfers_congr {τ' : Nat → State} {stream' : String}
    (h : ∀ t, ∀ ending ∈ ["_value", "_valid", "_ready"],
      (τ (t + 1)).value (stream ++ ending) = (τ' (t + 1)).value (stream' ++ ending)) (t : Nat) :
    transfers τ stream t = transfers τ' stream' t := by
  have hmoves : ∀ k, (τ (k + 1)).Moves stream ↔ (τ' (k + 1)).Moves stream' := by
    intro k
    rw [State.Moves, State.Moves, h k "_valid" (by simp), h k "_ready" (by simp)]
  rw [transfers, transfers, List.filter_congr fun k _ => decide_eq_decide.mpr (hmoves k)]
  exact List.map_congr_left fun k _ => h k "_value" (by simp)

end

/-- The signals of a stream, with room for a window. -/
theorem signals_stream {name : String} {shape : Shape} {direction : Direction}
    {signals : List Signal} (h : shape.signals name direction = .ok signals)
    (hkind : shape.kind = .stream) :
    signals = [⟨name ++ "_value", shape.extents.prod * shape.elem.bits, direction, false⟩,
      ⟨name ++ "_valid", 1, direction, false⟩, ⟨name ++ "_ready", 1, direction.flip, true⟩] := by
  rw [Shape.signals_ok h, Shape.lines, hkind]
  rfl

/-- The ports of a shape are its lines. -/
theorem Port.ofShape_ok {name : String} {shape : Shape} {direction : Direction}
    {ports : List Port} (h : Port.ofShape name shape direction = .ok ports) :
    ports = shape.lines.map fun l => ⟨name ++ l.ending, l.width, l.direction direction⟩ := by
  rcases Fallible.bind_ok.mp h with ⟨signals, hsignals, hports⟩
  rw [← Except.ok.inj hports, Shape.signals_ok hsignals, List.map_map]
  rfl

theorem Port.ofShape_stream {name : String} {shape : Shape} {direction : Direction}
    {ports : List Port} (h : Port.ofShape name shape direction = .ok ports)
    (hkind : shape.kind = .stream) :
    ports = [⟨name ++ "_value", shape.extents.prod * shape.elem.bits, direction⟩,
      ⟨name ++ "_valid", 1, direction⟩, ⟨name ++ "_ready", 1, direction.flip⟩] := by
  rcases Fallible.bind_ok.mp h with ⟨signals, hsignals, hports⟩
  rw [← Except.ok.inj hports, signals_stream hsignals hkind]
  rfl

/-- The ports of a stream are its signals. -/
theorem Module.carries_of_ofShape {m : Module} {name : String} {shape : Shape}
    {direction : Direction} {ports : List Port} (h : Port.ofShape name shape direction = .ok ports)
    (hkind : shape.kind = .stream) (hsub : ∀ p ∈ ports, p ∈ m.ports) :
    m.Carries name (shape.extents.prod * shape.elem.bits) := by
  rcases Port.ofShape_stream h hkind with rfl
  refine ⟨?_, ?_, ?_⟩
  · exact Module.signals_of_port (hsub _ (List.mem_cons_self ..))
  · exact Module.signals_of_port (hsub ⟨name ++ "_valid", 1, direction⟩ (by simp))
  · exact Module.signals_of_port (hsub ⟨name ++ "_ready", 1, direction.flip⟩ (by simp))

end Rtl

namespace Component

open Rtl

/-- A port of a component is among its ports. -/
theorem mem_ports_of_portShape {c : Component} {name : String} {shape : Shape}
    (h : c.portShape name = .ok shape) : ∃ direction, (name, shape, direction) ∈ c.ports := by
  rw [portShape, port?] at h
  cases hfound : c.ports.find? fun p => p.1 = name with
  | none =>
      rw [hfound] at h
      exact absurd h (by simp [undefinedName])
  | some found =>
      rw [hfound] at h
      rcases found with ⟨name', shape', direction⟩
      rcases Except.ok.inj h with rfl
      have hname := List.find?_some hfound
      rw [decide_eq_true_eq] at hname
      exact ⟨direction, hname ▸ List.mem_of_find?_eq_some hfound⟩

/-- The ports of the module of a component are the clock, the reset and the lines of its own. -/
theorem modulePorts_lines {c : Component} {ports : List Port} (h : c.modulePorts = .ok ports) :
    ports = Port.common ++ c.ports.flatMap fun (name, shape, direction) =>
      shape.lines.map fun l => ⟨name ++ l.ending, l.width, l.direction direction⟩ := by
  rcases Fallible.bind_ok.mp h with ⟨own, hown, hports⟩
  rw [← Except.ok.inj hports, List.flatMap_def]
  exact congrArg (Port.common ++ List.flatten ·)
    (Fallible.mapM_eq_map (fun _ _ _ hp => Port.ofShape_ok hp) hown)

/-- A component whose ports have few enough bits has such ports. -/
theorem modulePorts_returns {c : Component}
    (h : ∀ p ∈ c.ports, ∃ width, p.2.1.dataWidth = .ok width) :
    ∃ ports, c.modulePorts = .ok ports := by
  have hport : ∀ p ∈ c.ports, ∃ own, Port.ofShape p.1 p.2.1 p.2.2 = .ok own := by
    intro p hp
    rcases h p hp with ⟨width, hwidth⟩
    exact ⟨_, Fallible.bind_ok.mpr ⟨_, Fallible.bind_ok.mpr ⟨width, hwidth, rfl⟩, rfl⟩⟩
  rcases Fallible.mapM_returns hport with ⟨own, hown⟩
  exact ⟨_, Fallible.bind_ok.mpr ⟨own, hown, rfl⟩⟩

/-- The lines of its own ports are signals of the module of a component. -/
theorem line_of_modulePorts {c : Component} {m : Module} {name : String} {shape : Shape}
    {direction : Direction} {l : Line} (h : c.modulePorts = .ok m.ports)
    (hport : (name, shape, direction) ∈ c.ports) (hl : l ∈ shape.lines) :
    (name ++ l.ending, l.width) ∈ m.signals := by
  refine Module.signals_of_port (p := ⟨name ++ l.ending, l.width, l.direction direction⟩) ?_
  rw [modulePorts_lines h]
  exact List.mem_append_right _ (List.mem_flatMap.mpr ⟨_, hport, List.mem_map_of_mem hl⟩)

/-- The reset and the signals of its own ports are among the ports of the module of a
    component. -/
theorem modulePorts_ok {c : Component} {ports : List Port} (h : c.modulePorts = .ok ports) :
    .input reset 1 ∈ ports ∧ ∀ name shape direction, (name, shape, direction) ∈ c.ports →
      ∃ own, Port.ofShape name shape direction = .ok own ∧ ∀ p ∈ own, p ∈ ports := by
  rcases Fallible.bind_ok.mp h with ⟨own, hown, hports⟩
  rcases Except.ok.inj hports with rfl
  refine ⟨List.mem_append_left _ (by simp [Port.common]), fun name shape direction hport => ?_⟩
  rcases Fallible.mem_of_mapM_ok hown _ hport with ⟨signals, hsignals, hshape⟩
  exact ⟨signals, hshape, fun p hp =>
    List.mem_append_right _ (List.mem_flatten.mpr ⟨signals, hsignals, hp⟩)⟩

/-- The module of a component carries the streams of the component. -/
theorem carries_of_modulePorts {c : Component} {m : Module} {name : String} {s : Shape}
    (h : c.modulePorts = .ok m.ports) (hport : c.portShape name = .ok s)
    (hkind : s.kind = .stream) : m.Carries name (s.extents.prod * s.elem.bits) := by
  rcases mem_ports_of_portShape hport with ⟨direction, hmem⟩
  rcases (modulePorts_ok h).2 _ _ _ hmem with ⟨own, hown, hsub⟩
  exact Module.carries_of_ofShape hown hkind hsub

theorem reset_of_modulePorts {c : Component} {m : Module} (h : c.modulePorts = .ok m.ports) :
    (reset, 1) ∈ m.signals :=
  Module.signals_of_port (modulePorts_ok h).1

/-- A port without a handshake is one signal, with room for a window. -/
theorem signal_of_modulePorts {c : Component} {m : Module} {name : String} {shape : Shape}
    (h : c.modulePorts = .ok m.ports) (hport : c.portShape name = .ok shape)
    (hplain : shape.isStream = false) :
    (name, shape.extents.prod * shape.elem.bits) ∈ m.signals := by
  rcases mem_ports_of_portShape hport with ⟨direction, hmem⟩
  rcases (modulePorts_ok h).2 _ _ _ hmem with ⟨own, hown, hsub⟩
  rcases Fallible.bind_ok.mp hown with ⟨signals, hsignals, hports⟩
  rw [← Except.ok.inj hports, Shape.signals_ok hsignals, Shape.lines_plain hplain] at hsub
  have hmem := hsub ⟨name ++ "", _, direction⟩ (List.mem_singleton_self _)
  rw [String.append_empty] at hmem
  exact Module.signals_of_port hmem

/-- A port of a single bit is a signal of one. -/
theorem bit_of_modulePorts {c : Component} {m : Module} {name : String}
    (h : c.modulePorts = .ok m.ports) (hport : c.portShape name = .ok .bit) :
    (name, 1) ∈ m.signals := signal_of_modulePorts h hport rfl

end Component

end StencilRtl
