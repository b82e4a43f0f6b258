import StencilRtl.Proofs.Netlist.Building
import StencilRtl.Proofs.Netlist.Steps

/-!
# Constructions That Leave the Stages Alone

Most of what happens while a kernel is read has nothing to do with its loop
nests.

Wires are declared, queues and adapters are added and everything is connected,
but the stages of the design and the nest around the current statement stay what
they were. `Keeps` says that of a step of the construction. The primitive steps
respect it, which is all there is to show, and whole stream operations follow.

## Main definitions

* `Netlist.stagePlans`: The stages of a design.
* `Construction.Keeps`: A step that leaves the stages and the nest alone.

## Theorems

* `stagePlans_addComponent`: A new component is a stage or changes none.
* `untouched_respected`: The primitive steps leave the stages and the nest alone.
* `addStage_ok`: The stage of a nest is added behind the others.
-/

namespace StencilRtl

/-- The stages of a design, in order. -/
def Netlist.stagePlans (n : Netlist) : List StagePlan :=
  (n.components.map Component.kind).filterMap ComponentKind.plan?

namespace Netlist

theorem mem_stagePlans {n : Netlist} {plan : StagePlan} :
    plan ∈ n.stagePlans ↔ ∃ c ∈ n.components, c.kind = .stage plan := by
  simp only [stagePlans, List.filterMap_map, List.mem_filterMap, Function.comp_apply,
    ComponentKind.plan?_eq_some]

theorem stagePlans_addComponent {n m : Netlist} {c : Component} {index : Nat}
    (h : n.addComponent c = .ok (m, index)) :
    m.stagePlans = n.stagePlans ++ c.kind.plan?.toList := by
  rcases addComponent_ok h with ⟨_, rfl⟩
  simp only [stagePlans, List.map_append, List.map_cons, List.map_nil, List.filterMap_append]
  congr 1

/-- A component may take the place of another one of its kind. -/
theorem stagePlans_setComponent {n : Netlist} {index : Nat} {c d : Component}
    (hc : n.component index = .ok c) (hd : d.kind = c.kind) :
    (n.setComponent index d).stagePlans = n.stagePlans := by
  rw [stagePlans, stagePlans, map_setComponent hc hd]

end Netlist

namespace Construction

/-- A step that, when it returns, has left the stages and the nest alone. -/
def Keeps {α : Type} (m : Constructing α) : Prop :=
  ∀ c a c', m c = .ok (a, c') →
    c'.nest = c.nest ∧ c'.netlist.stagePlans = c.netlist.stagePlans

/-- The primitive steps leave the stages and the nest alone. -/
theorem untouched_respected : Respected fun c c' =>
    c'.nest = c.nest ∧ c'.netlist.stagePlans = c.netlist.stagePlans where
  refl _ := ⟨rfl, rfl⟩
  trans h h' := ⟨h'.1.trans h.1, h'.2.trans h.2⟩
  outputs _ _ := ⟨rfl, rfl⟩
  connect _ _ _ := ⟨rfl, rfl⟩
  wire h := by
    rcases Netlist.addWire_ok h with ⟨_, rfl⟩
    exact ⟨rfl, rfl⟩
  port h := by
    rcases Netlist.addPort_ok h with rfl
    exact ⟨rfl, rfl⟩
  component hstage _ h := by
    refine ⟨rfl, ?_⟩
    rw [Netlist.stagePlans_addComponent h, hstage, Option.toList_none, List.append_nil]
  input hs h := ⟨rfl, Netlist.stagePlans_setComponent hs (Component.kind_addInput h)⟩
  output hs h := ⟨rfl, Netlist.stagePlans_setComponent hs (Component.kind_addOutput h)⟩
  register _ := ⟨rfl, rfl⟩

/-- The stage a nest is finished to is added behind the others. -/
theorem addStage_ok {nest : LoopNest} {c c' : Construction} {u : Unit}
    (h : addStage nest c = .ok (u, c')) :
    c'.nest = c.nest ∧ ∃ params plan output, nest.finish params = .ok (plan, output) ∧
      c'.netlist.stagePlans = c.netlist.stagePlans ++ [plan] := by
  rcases untouched_respected.addStage_behind h with
    ⟨params, plan, output, stage, n, index, _, hfinish, hstage, hadd, hnest, hplans⟩
  refine ⟨hnest, params, plan, output, hfinish, ?_⟩
  rw [hplans, Netlist.stagePlans_addComponent hadd, kind_stageComponent hstage]
  rfl

end Construction

end StencilRtl
