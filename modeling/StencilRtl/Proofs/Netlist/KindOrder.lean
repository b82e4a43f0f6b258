import Mathlib.Data.List.Basic
import StencilRtl.Hardware.Top

/-!
# Kind by Kind

The order in which the instances of a top module are made.

The components are sorted by the ranks of their kinds, and the sort is stable. So what comes
first are all components of the lowest rank, as they were added, then those of the next rank,
and so on. In this form the order can be computed without sorting anything.

## Main definitions

* `Netlist.kindOrder`: The numbers of the components, rank by rank.

## Theorems

* `mergeSort_eq_flatMap_filter`: A stable sort by a rank goes rank by rank.
* `Netlist.emissionOrder_eq`, `Netlist.makeTop_eq`: Instances are made rank by rank.
-/

namespace StencilRtl

section

variable {α : Type} {rank : α → Nat}

/-- Of a sorted list, what lies below a rank and what has it are the beginning. -/
theorem filter_lt_append {xs : List α} (h : xs.Pairwise fun a b => rank a ≤ rank b) (r : Nat) :
    xs.filter (rank · < r) ++ xs.filter (rank · = r) = xs.filter (rank · < r + 1) := by
  induction xs with
  | nil => rfl
  | cons x rest ih =>
      rcases List.pairwise_cons.mp h with ⟨hle, hrest⟩
      rcases Nat.lt_or_ge (rank x) r with hlt | hge
      · have hne : ¬decide (rank x = r) = true := by
          rw [decide_eq_true_eq]
          exact Nat.ne_of_lt hlt
        rw [List.filter_cons, if_pos (decide_eq_true hlt), List.filter_cons, if_neg hne,
          List.filter_cons, if_pos (decide_eq_true (Nat.lt_succ_of_lt hlt)), List.cons_append,
          ih hrest]
      -- Nothing behind an item lies below it.
      have hnone : (x :: rest).filter (rank · < r) = [] := by
        refine List.filter_eq_nil_iff.mpr fun y hy => ?_
        rw [decide_eq_true_eq, Nat.not_lt]
        rcases List.mem_cons.mp hy with rfl | hy
        · exact hge
        · exact Nat.le_trans hge (hle y hy)
      rw [hnone, List.nil_append]
      refine List.filter_congr fun y hy => decide_eq_decide.mpr ?_
      have hbehind := List.filter_eq_nil_iff.mp hnone y hy
      rw [decide_eq_true_eq] at hbehind
      omega

/-- A sorted list goes rank by rank. -/
theorem flatMap_filter_eq {xs : List α} (h : xs.Pairwise fun a b => rank a ≤ rank b) (m : Nat) :
    (List.range m).flatMap (fun r => xs.filter (rank · = r)) = xs.filter (rank · < m) := by
  induction m with
  | zero => simp
  | succ m ih =>
      rw [List.range_succ, List.flatMap_append, ih, List.flatMap_singleton]
      exact filter_lt_append h m

/-- A stable sort by a rank goes rank by rank, and within a rank it keeps the order. -/
theorem mergeSort_eq_flatMap_filter {xs : List α} {m : Nat} (hrank : ∀ x ∈ xs, rank x < m) :
    xs.mergeSort (fun a b => rank a ≤ rank b)
      = (List.range m).flatMap fun r => xs.filter (rank · = r) := by
  have htrans : ∀ a b c : α, decide (rank a ≤ rank b) = true → decide (rank b ≤ rank c) = true →
      decide (rank a ≤ rank c) = true := fun _ _ _ => by simpa using Nat.le_trans
  have htotal : ∀ a b : α, (decide (rank a ≤ rank b) || decide (rank b ≤ rank a)) = true :=
    fun _ _ => by simpa using Nat.le_total _ _
  have hsorted : (xs.mergeSort fun a b => rank a ≤ rank b).Pairwise fun a b => rank a ≤ rank b := by
    simpa using List.pairwise_mergeSort htrans htotal xs
  have hperm := List.mergeSort_perm xs fun a b => decide (rank a ≤ rank b)
  have hsame : ∀ r, (xs.mergeSort fun a b => rank a ≤ rank b).filter (rank · = r)
      = xs.filter (rank · = r) := by
    intro r
    -- Elements of one rank are sorted already, so a stable sort keeps them as they are.
    have hsub : (xs.filter (rank · = r)).Sublist
        ((xs.mergeSort fun a b => rank a ≤ rank b).filter (rank · = r)) := by
      have hpairwise : (xs.filter (rank · = r)).Pairwise
          fun a b => decide (rank a ≤ rank b) = true := by
        refine (List.pairwise_of_forall (R := fun _ _ => True) fun _ _ => trivial).imp_of_mem
          fun {a b} ha hb _ => ?_
        have hra : rank a = r := by simpa using (List.mem_filter.mp ha).2
        have hrb : rank b = r := by simpa using (List.mem_filter.mp hb).2
        simp [hra, hrb]
      have hstable := List.sublist_mergeSort htrans htotal hpairwise List.filter_sublist
      simpa [List.filter_filter] using hstable.filter (rank · = r)
    exact (hsub.eq_of_length (hperm.filter _).length_eq.symm).symm
  have hall := flatMap_filter_eq hsorted m
  rw [List.filter_eq_self.mpr fun x hx => decide_eq_true (hrank x (hperm.mem_iff.mp hx))] at hall
  rw [← hall]
  exact List.flatMap_congr fun r _ => hsame r

end

theorem ComponentKind.rank_lt (k : ComponentKind) : k.rank < 7 := by
  cases k with
  | adapter side => cases side <;> decide
  | _ => simp [rank]

namespace Netlist

open Rtl

/-- The numbers of the components, rank by rank. -/
def kindOrder (n : Netlist) : List Nat :=
  (List.range 7).flatMap fun r =>
    (n.components.zipIdx.filter fun c => c.1.kind.rank = r).map Prod.snd

theorem emissionOrder_eq (n : Netlist) : n.emissionOrder = n.kindOrder := by
  have hsort := mergeSort_eq_flatMap_filter (m := 7)
    fun (c : Component × Nat) (_ : c ∈ n.components.zipIdx) => c.1.kind.rank_lt
  rw [emissionOrder, hsort, List.map_flatMap, kindOrder]

/-- Instances are made rank by rank. -/
theorem makeTop_eq : makeTop = fun n => do
    n.validate
    let signals ← n.portSignals
    let declarations ← n.wireDeclarations
    let outputs := (signals.filter fun s => s.direction = .output).map Signal.name
    let placed ← n.kindOrder.mapM n.place
    let (resolved, warnings) ← n.resolve
    Making.warn warnings
    let drivers ← assignments (outputs ++ placed.flatMap (·.sinks)) resolved
    return ⟨n.name, Port.common ++ signals.map Port.ofSignal,
      declarations ++ placed.flatMap (·.items) ++ drivers⟩ := by
  funext n
  rw [makeTop, emissionOrder_eq]

end Netlist

end StencilRtl
