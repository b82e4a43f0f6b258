import StencilRtl.Netlist.Basic
import StencilRtl.Proofs.Fallible

/-!
# Building Designs

What has been done when a design was built one step further.

Building a design comes down to putting something at the end of a list, after a look
whether its name is free. Each lemma here takes one step that returned apart: what was
free before, and what the design or the component is then.

## Main definitions

* `Netlist.Apart`: No wire has the name of a port.

## Theorems

* `Component.addInput_ok`, `Component.addOutput_ok`: The ports of a component.
* `Netlist.addWire_ok`, `Netlist.addPort_ok`, `Netlist.addComponent_ok`: Wires, ports of
  the top module and components.
* `Netlist.component_ok`: The component with a number.
-/

namespace StencilRtl

namespace Component

theorem port?_eq_none_iff {c : Component} {name : String} :
    c.port? name = none ↔ c.declares name = false := by
  simp [port?, ports, declares]

/-- A new input has a name of its own. -/
theorem addInput_ok {c d : Component} {name : String} {shape : Shape}
    (h : c.addInput name shape = .ok d) :
    c.port? name = none ∧ d = { c with inputs := c.inputs ++ [(name, shape)] } := by
  unfold addInput at h
  split at h
  · exact absurd h (by simp [malformed])
  · next hfree =>
    exact ⟨port?_eq_none_iff.mpr (Bool.eq_false_iff.mpr hfree), (Except.ok.inj h).symm⟩

/-- So does a new output. -/
theorem addOutput_ok {c d : Component} {name : String} {shape : Shape}
    (h : c.addOutput name shape = .ok d) :
    c.port? name = none ∧ d = { c with outputs := c.outputs ++ [(name, shape)] } := by
  unfold addOutput at h
  split at h
  · exact absurd h (by simp [malformed])
  · next hfree =>
    exact ⟨port?_eq_none_iff.mpr (Bool.eq_false_iff.mpr hfree), (Except.ok.inj h).symm⟩

theorem port?_addInput {c d : Component} {name : String} {shape : Shape}
    (h : c.addInput name shape = .ok d) (other : String) :
    d.port? other = if name = other then some (shape, .input) else c.port? other := by
  rcases addInput_ok h with ⟨hnone, rfl⟩
  by_cases hname : name = other
  · subst hname
    rw [if_pos rfl]
    simp only [port?, ports, List.map_append, List.find?_append, Option.map_eq_none_iff,
      Option.or_eq_none_iff] at hnone ⊢
    simp [hnone.1]
  · rw [if_neg hname]
    simp [port?, ports, List.find?_append, hname]

theorem port?_addOutput {c d : Component} {name : String} {shape : Shape}
    (h : c.addOutput name shape = .ok d) (other : String) :
    d.port? other = if name = other then some (shape, .output) else c.port? other := by
  rcases addOutput_ok h with ⟨hnone, rfl⟩
  by_cases hname : name = other
  · subst hname
    rw [if_pos rfl]
    simp only [port?, ports, List.map_append, List.find?_append, Option.map_eq_none_iff,
      Option.or_eq_none_iff] at hnone ⊢
    simp [hnone.1, hnone.2]
  · rw [if_neg hname]
    simp [port?, ports, List.find?_append, hname]

end Component

namespace Netlist

variable {n m : Netlist}

theorem declares_eq_false {name : String} :
    n.declares name = false ↔ n.port? name = none ∧ n.wire? name = none := by
  rw [declares, Bool.or_eq_false_iff, Option.isSome_eq_false_iff, Option.isSome_eq_false_iff,
    Option.isNone_iff_eq_none, Option.isNone_iff_eq_none]

/-- A new wire has a name that is neither a port's nor a wire's. -/
theorem addWire_new {name : String} {shape : Shape} (h : n.addWire name shape = .ok m) :
    n.declares name = false := by
  rcases Fallible.bind_ok.mp h with ⟨_, _, h⟩
  split at h
  · exact absurd h (by simp [malformed])
  · next hfree => exact Bool.eq_false_iff.mpr hfree

theorem addWire_ok {name : String} {shape : Shape} (h : n.addWire name shape = .ok m) :
    n.wire? name = none ∧ m = { n with wires := n.wires ++ [(name, shape)] } := by
  refine ⟨(declares_eq_false.mp (addWire_new h)).2, ?_⟩
  rcases Fallible.bind_ok.mp h with ⟨_, _, h⟩
  split at h
  · exact absurd h (by simp [malformed])
  · exact (Except.ok.inj h).symm

theorem wire?_eq_none_iff {name : String} : n.wire? name = none ↔ name ∉ n.wires.map Prod.fst := by
  rw [wire?, Option.map_eq_none_iff, List.find?_eq_none, List.mem_map, not_exists]
  simp only [decide_eq_true_eq, not_and]

theorem exists_wire?_iff {name : String} :
    (∃ shape, n.wire? name = some shape) ↔ name ∈ n.wires.map Prod.fst := by
  rw [← Option.ne_none_iff_exists', Ne, wire?_eq_none_iff, not_not]

/-- Wires are told apart by their names. -/
def Keyed (n : Netlist) : Prop := (n.wires.map Prod.fst).Nodup

/-- A new wire has a name of its own. -/
theorem Keyed.addWire (hkeyed : n.Keyed) {name : String} {shape : Shape}
    (h : n.addWire name shape = .ok m) : m.Keyed := by
  rcases addWire_ok h with ⟨hnone, rfl⟩
  rw [Keyed, List.map_append, List.map_singleton]
  refine List.nodup_append.mpr ⟨hkeyed, List.pairwise_singleton .., fun x hx y hy => ?_⟩
  rw [List.mem_singleton.mp hy]
  rintro rfl
  exact wire?_eq_none_iff.mp hnone hx

theorem wire?_addWire {name : String} {shape : Shape} (h : n.addWire name shape = .ok m) :
    m.wire? name = some shape ∧
      ∀ other s, n.wire? other = some s → m.wire? other = some s := by
  rcases addWire_ok h with ⟨hnone, rfl⟩
  rw [wire?, Option.map_eq_none_iff] at hnone
  refine ⟨?_, fun other s hs => ?_⟩
  · rw [wire?, List.find?_append, hnone, Option.none_or]
    simp
  · rw [wire?, Option.map_eq_some_iff] at hs
    rcases hs with ⟨w, hw, rfl⟩
    rw [wire?, List.find?_append, hw, Option.some_or, Option.map_some]

/-- So has a new port. -/
theorem addPort_new {name : String} {shape : Shape} {direction : Direction}
    (h : n.addPort name shape direction = .ok m) : n.declares name = false := by
  unfold addPort at h
  split at h
  · exact absurd h (by simp [malformed])
  · next hfree => exact Bool.eq_false_iff.mpr hfree

theorem addPort_ok {name : String} {shape : Shape} {direction : Direction}
    (h : n.addPort name shape direction = .ok m) :
    m = { n with ports := n.ports ++ [(name, shape, direction)] } := by
  unfold addPort at h
  split at h
  · exact absurd h (by simp [malformed])
  · exact (Except.ok.inj h).symm

theorem port?_addPort {name : String} {shape : Shape} {direction : Direction}
    (h : n.addPort name shape direction = .ok m) : m.port? name = some (shape, direction) := by
  have hnone := (declares_eq_false.mp (addPort_new h)).1
  rcases addPort_ok h with rfl
  rw [port?, Option.map_eq_none_iff] at hnone
  rw [port?, List.find?_append, hnone, Option.none_or]
  simp

/-- Of a name that is not the one of a new wire nothing changes. -/
theorem wire?_addWire_of_ne {name other : String} {shape : Shape}
    (h : n.addWire name shape = .ok m) (hne : other ≠ name) : m.wire? other = n.wire? other := by
  rcases addWire_ok h with ⟨_, rfl⟩
  rw [wire?, wire?, List.find?_append]
  simp [Ne.symm hne]

theorem port?_addPort_of_ne {name other : String} {shape : Shape} {direction : Direction}
    (h : n.addPort name shape direction = .ok m) (hne : other ≠ name) :
    m.port? other = n.port? other := by
  rcases addPort_ok h with rfl
  rw [port?, port?, List.find?_append]
  simp [Ne.symm hne]

/-- No wire has the name of a port. -/
def Apart (n : Netlist) : Prop := ∀ name p, n.port? name = some p → n.wire? name = none

theorem Apart.addWire {name : String} {shape : Shape} (h : n.Apart)
    (hadd : n.addWire name shape = .ok m) : m.Apart := by
  intro other p hp
  have hfree := (declares_eq_false.mp (addWire_new hadd)).1
  have hport : n.port? other = some p := by
    rcases addWire_ok hadd with ⟨_, rfl⟩
    exact hp
  have hne : other ≠ name := by
    rintro rfl
    exact absurd (hfree.symm.trans hport) (by simp)
  rw [wire?_addWire_of_ne hadd hne]
  exact h other p hport

theorem Apart.addPort {name : String} {shape : Shape} {direction : Direction} (h : n.Apart)
    (hadd : n.addPort name shape direction = .ok m) : m.Apart := by
  intro other p hp
  have hfree := (declares_eq_false.mp (addPort_new hadd)).2
  have hwire : m.wire? other = n.wire? other := by
    rcases addPort_ok hadd with rfl
    rfl
  rw [hwire]
  by_cases hother : other = name
  · exact hother ▸ hfree
  · exact h other p (port?_addPort_of_ne hadd hother ▸ hp)

/-- A new component has an instance name of its own. -/
theorem addComponent_new {c : Component} {index : Nat} (h : n.addComponent c = .ok (m, index)) :
    n.find? c.instanceName = none := by
  unfold addComponent at h
  split at h
  · exact absurd h (by simp [malformed])
  · next hfree => exact Option.not_isSome_iff_eq_none.mp hfree

theorem addComponent_ok {c : Component} {index : Nat} (h : n.addComponent c = .ok (m, index)) :
    index = n.components.length ∧ m = { n with
      components := n.components ++ [c]
      slave := if c.kind = .slaveInterface then some n.components.length else n.slave } := by
  unfold addComponent at h
  split at h
  · exact absurd h (by simp [malformed])
  · rw [Except.ok.injEq, Prod.mk.injEq] at h
    exact ⟨h.2.symm, h.1.symm⟩

theorem component_ok {index : Nat} {c : Component} :
    n.component index = .ok c ↔ n.components[index]? = some c := by
  unfold component
  split
  · next c' hget => rw [Except.ok.injEq, hget, Option.some.injEq]
  · next hnone =>
    rw [hnone]
    simp [giveWay]

theorem component_setComponent {index : Nat} {c d : Component} (h : n.component index = .ok c) :
    (n.setComponent index d).component index = .ok d := by
  rw [component_ok] at h ⊢
  exact List.getElem?_set_self (List.getElem?_eq_some_iff.mp h).1

theorem component_setComponent_of_ne {index i : Nat} {d : Component} (hne : index ≠ i) :
    (n.setComponent index d).component i = n.component i := by
  rw [component, component, setComponent, List.getElem?_set_ne hne]

/-- Behind the components that were there before is the new one. -/
theorem component_addComponent {c d : Component} {index i : Nat}
    (h : n.addComponent c = .ok (m, index)) :
    m.component i = .ok d ↔ n.component i = .ok d ∨ i = index ∧ d = c := by
  rcases addComponent_ok h with ⟨rfl, rfl⟩
  rw [component_ok, component_ok, List.getElem?_append]
  split
  · next hlt =>
    exact ⟨.inl, fun hd => hd.resolve_right fun hlast => Nat.lt_irrefl _ (hlast.1 ▸ hlt)⟩
  -- Behind the old components there is one place more.
  · next hge =>
    rw [List.getElem?_eq_none (Nat.not_lt.mp hge), List.getElem?_singleton]
    simp only [reduceCtorEq, false_or]
    constructor
    · intro hd
      split at hd
      · next hzero => exact ⟨by omega, (Option.some.inj hd).symm⟩
      · exact absurd hd (by simp)
    · rintro ⟨rfl, rfl⟩
      rw [if_pos (Nat.sub_self _)]

/-- What a component has in common with the one in whose place it is put does not change. -/
theorem map_setComponent {α : Type} {f : Component → α} {index : Nat} {c d : Component}
    (hc : n.component index = .ok c) (hd : f d = f c) :
    (n.setComponent index d).components.map f = n.components.map f := by
  rcases List.getElem?_eq_some_iff.mp (component_ok.mp hc) with ⟨hlt, rfl⟩
  have hmapped : index < (n.components.map f).length := by rwa [List.length_map]
  have hsame : f n.components[index] = (n.components.map f)[index] := (List.getElem_map f).symm
  rw [setComponent, List.map_set, hd, hsame, List.set_getElem_self]

end Netlist

end StencilRtl
