import Mathlib.Data.Fintype.EquivFin
import Mathlib.Logic.Relation
import StencilRtl.Netlist.Check

/-!
# What Is Left of a Graph

Taking edges away decides whether a directed graph has a cycle.

An edge is taken away when its start is the end of no other edge. What can never be taken away
is a set of edges that lead into one another: if each edge of the set starts where another one of
the set ends, each of them still does after every round. The edges on a cycle and those that can
be reached from it are such a set, so they stay.

Conversely every edge that stays starts where another one that stays ends. There are finitely
many of them, so following them backwards comes to an edge a second time.

## Theorems

* `exists_before_of_mem_cyclicCore`: An edge that stays starts where one that stays ends.
* `mem_cyclicCore_of_before`: Edges that lead into one another stay.
* `cyclicCore_eq_nil_iff`: Nothing stays if and only if there is no cycle.
-/

namespace StencilRtl

variable {α : Type} [DecidableEq α] {edges : List (α × α)}

theorem mem_supported {e : α × α} :
    e ∈ supported edges ↔ e ∈ edges ∧ ∃ before ∈ edges, before.2 = e.1 := by
  simp only [supported, List.mem_filter, List.any_eq_true, decide_eq_true_eq]

/-- No edge is added. -/
theorem mem_of_mem_cyclicCore {e : α × α} (h : e ∈ cyclicCore edges) : e ∈ edges := by
  fun_induction cyclicCore edges with
  | case1 edges _ ih => exact (mem_supported.mp (ih h)).1
  | case2 edges _ => exact h

/-- An edge that stays starts where one that stays ends. -/
theorem exists_before_of_mem_cyclicCore {e : α × α} (h : e ∈ cyclicCore edges) :
    ∃ before ∈ cyclicCore edges, before.2 = e.1 := by
  fun_induction cyclicCore edges with
  | case1 edges _ ih => exact ih h
  | case2 edges hall =>
      have heq : supported edges = edges :=
        List.filter_sublist.eq_of_length_le (Nat.not_lt.mp hall)
      rw [← heq] at h
      exact (mem_supported.mp h).2

/-- Edges that lead into one another stay. -/
theorem mem_cyclicCore_of_before {kept : Set (α × α)} (hedges : ∀ e ∈ kept, e ∈ edges)
    (hbefore : ∀ e ∈ kept, ∃ before ∈ kept, before.2 = e.1) :
    ∀ e ∈ kept, e ∈ cyclicCore edges := by
  fun_induction cyclicCore edges with
  | case1 edges _ ih =>
      refine ih fun e he => mem_supported.mpr ⟨hedges e he, ?_⟩
      rcases hbefore e he with ⟨before, hkept, hends⟩
      exact ⟨before, hedges before hkept, hends⟩
  | case2 edges _ => exact hedges

/-- Nothing stays if and only if there is no way along edges back to where it started. -/
theorem cyclicCore_eq_nil_iff :
    cyclicCore edges = [] ↔ ∀ a, ¬Relation.TransGen (fun a b => (a, b) ∈ edges) a a := by
  refine ⟨fun hnil a hcycle => ?_, fun hacyclic => List.eq_nil_iff_forall_not_mem.mpr ?_⟩
  · -- The edges that start somewhere on the way from `a` lead into one another.
    let onward : Set (α × α) :=
      { e | e ∈ edges ∧ Relation.TransGen (fun a b => (a, b) ∈ edges) a e.1 }
    have hstay : ∀ e ∈ onward, e ∈ cyclicCore edges := by
      refine mem_cyclicCore_of_before (fun e he => he.1) fun e he => ?_
      rcases Relation.TransGen.tail'_iff.mp he.2 with ⟨b, hab, hedge⟩
      exact ⟨(b, e.1), ⟨hedge, hcycle.trans_left hab⟩, rfl⟩
    rcases Relation.TransGen.head'_iff.mp hcycle with ⟨b, hab, _⟩
    exact absurd (hstay (a, b) ⟨hab, hcycle⟩) (hnil ▸ List.not_mem_nil)
  · -- Without a cycle the edges that stay have a first one, but it has one before it.
    let starts := { a // a ∈ (cyclicCore edges).map Prod.fst }
    let r : starts → starts → Prop :=
      fun a b => Relation.TransGen (fun a b => (a, b) ∈ edges) a.1 b.1
    have hwf : WellFounded r :=
      haveI : IsTrans starts r := ⟨fun _ _ _ => Relation.TransGen.trans⟩
      haveI : Std.Irrefl r := ⟨fun a => hacyclic a.1⟩
      Finite.wellFounded_of_trans_of_irrefl r
    have hnone : ∀ a : starts, False := fun a => by
      induction a using hwf.induction with
      | _ a ih =>
          rcases List.mem_map.mp a.2 with ⟨e, he, hstart⟩
          rcases exists_before_of_mem_cyclicCore he with ⟨before, hbefore, hends⟩
          refine ih ⟨before.1, List.mem_map_of_mem hbefore⟩ (.single ?_)
          rw [← hstart, ← hends]
          exact mem_of_mem_cyclicCore hbefore
    exact fun e he => hnone ⟨e.1, List.mem_map_of_mem he⟩

end StencilRtl
