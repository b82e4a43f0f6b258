import Mathlib.Algebra.BigOperators.Ring.List
import Mathlib.Data.List.Forall2
import Mathlib.Data.List.Lex

/-!
# Tuples in Order

Counting through several dimensions, the first of them fastest.

The tuples with a coordinate from each of some lists are listed by `rowMajor` the way
they are counted: the first coordinate goes through its list while all others stay. For
two dimensions that is counting through one, which is `flatMap_range_map`, and the
number of a pair gives the pair back by a division and its remainder.

What is wanted of the list itself is said without its recursion: which tuples are in it,
that they stand in the order of their last coordinates, and that the tuples whose
coordinates pass a test each can be counted dimension by dimension.

## Main definitions

* `rowMajor`: Tuples of coordinates, the first one fastest.

## Theorems

* `flatMap_range_map`: Counting through two dimensions is counting through one.
* `mem_rowMajor`: Which tuples are listed.
* `pairwise_rowMajor`: The last coordinate in which two tuples differ orders them.
* `countP_rowMajor`: Tuples are counted dimension by dimension.
-/

namespace StencilRtl

/-- Counting through two dimensions, the first one fastest, is counting through one. -/
theorem flatMap_range_map {α : Type} (m n : Nat) (f : Nat → α) :
    ((List.range n).flatMap fun y => (List.range m).map fun x => f (x + m * y))
      = (List.range (m * n)).map f := by
  induction n with
  | zero => rw [Nat.mul_zero, List.range_zero, List.flatMap_nil, List.map_nil]
  | succ n ih =>
      have hlast : ((List.range m).map fun x => f (x + m * n))
          = ((List.range m).map fun x => m * n + x).map f := by
        rw [List.map_map]
        exact List.map_congr_left fun x _ => by rw [Function.comp_apply, Nat.add_comm]
      rw [List.range_succ, List.flatMap_append, ih, List.flatMap_singleton, hlast, Nat.mul_succ,
        List.range_add, List.map_append]

/-- The numbers a pair of numbers below two extents is counted by. -/
theorem pair_mod_div {m x : Nat} (hx : x < m) (y : Nat) :
    (x + m * y) % m = x ∧ (x + m * y) / m = y := by
  refine ⟨?_, ?_⟩
  · rw [Nat.add_mul_mod_self_left, Nat.mod_eq_of_lt hx]
  · rw [Nat.add_mul_div_left _ _ (by omega), Nat.div_eq_of_lt hx, Nat.zero_add]

theorem pair_lt {m n x y : Nat} (hx : x < m) (hy : y < n) : x + m * y < m * n := by
  have hrow : m * (y + 1) ≤ m * n := Nat.mul_le_mul_left m hy
  rw [Nat.mul_succ] at hrow
  omega

/-- Tuples with a coordinate from each list, the first one fastest. -/
def rowMajor : List (List Nat) → List (List Nat)
  | [] => [[]]
  | xs :: rest => (rowMajor rest).flatMap fun p => xs.map fun x => x :: p

theorem rowMajor_nil : rowMajor [] = [[]] := rfl

theorem rowMajor_cons (xs : List Nat) (rest : List (List Nat)) :
    rowMajor (xs :: rest) = (rowMajor rest).flatMap fun p => xs.map fun x => x :: p := rfl

/-- Two coordinates of a tuple at a time. -/
theorem rowMajor_cons_cons (xs ys : List Nat) (rest : List (List Nat)) :
    rowMajor (xs :: ys :: rest) = (rowMajor rest).flatMap fun p =>
      ys.flatMap fun y => xs.map fun x => x :: y :: p := by
  simp only [rowMajor_cons, List.flatMap_assoc, List.flatMap_map]

/-- A tuple is listed if each coordinate is in its list. -/
theorem mem_rowMajor {lists : List (List Nat)} {tuple : List Nat} :
    tuple ∈ rowMajor lists ↔ List.Forall₂ (· ∈ ·) tuple lists := by
  induction lists generalizing tuple with
  | nil => rw [rowMajor_nil, List.mem_singleton, List.forall₂_nil_right_iff]
  | cons xs rest ih =>
      simp only [rowMajor_cons, List.mem_flatMap, List.mem_map]
      refine ⟨?_, fun h => ?_⟩
      · rintro ⟨p, hp, x, hx, rfl⟩
        exact .cons hx (ih.mp hp)
      · cases h with
        | cons hx hrest => exact ⟨_, ih.mpr hrest, _, hx, rfl⟩

theorem length_rowMajor (lists : List (List Nat)) :
    (rowMajor lists).length = (lists.map List.length).prod := by
  induction lists with
  | nil => rfl
  | cons xs rest ih =>
      simp only [rowMajor_cons, List.length_flatMap, List.length_map, List.map_const', ih,
        List.sum_replicate_nat, List.map_cons, List.prod_cons, Nat.mul_comm]

/-- Of two lists of one length the smaller stays smaller whatever follows. -/
theorem append_lt_append_of_lt {as bs : List Nat} (h : as < bs) (hlength : as.length = bs.length)
    (cs ds : List Nat) : as ++ cs < bs ++ ds := by
  induction as generalizing bs with
  | nil =>
      cases bs with
      | nil => exact absurd h (List.not_lt_nil _)
      | cons b bs => exact absurd hlength (by simp)
  | cons a as ih =>
      cases bs with
      | nil => exact absurd hlength (by simp)
      | cons b bs =>
          rw [List.cons_append, List.cons_append, List.cons_lt_cons_iff]
          rcases List.cons_lt_cons_iff.mp h with hlt | ⟨rfl, hrest⟩
          · exact .inl hlt
          · exact .inr ⟨rfl, ih hrest (Nat.succ.inj hlength)⟩

/-- Tuples stand in the order of their last coordinates, and of those before where the
    last ones agree. -/
theorem pairwise_rowMajor {lists : List (List Nat)}
    (h : ∀ xs ∈ lists, xs.Pairwise (· < ·)) :
    (rowMajor lists).Pairwise fun p q => p.reverse < q.reverse := by
  induction lists with
  | nil => exact List.pairwise_singleton ..
  | cons xs rest ih =>
      have hrest := ih fun ys hys => h ys (List.mem_cons_of_mem _ hys)
      have hlength : ∀ p ∈ rowMajor rest, p.reverse.length = rest.length := by
        intro p hp
        rw [List.length_reverse]
        exact (mem_rowMajor.mp hp).length_eq
      rw [rowMajor_cons, List.pairwise_flatMap]
      refine ⟨fun p _ => ?_, ?_⟩
      · refine List.pairwise_map.mpr ((h xs (List.mem_cons_self ..)).imp fun {x y} hxy => ?_)
        rw [List.reverse_cons, List.reverse_cons]
        exact List.append_left_lt (List.cons_lt_cons_iff.mpr (.inl hxy))
      · refine hrest.imp_of_mem fun {p q} hp hq hpq => ?_
        intro a ha b hb
        rcases List.mem_map.mp ha with ⟨x, _, rfl⟩
        rcases List.mem_map.mp hb with ⟨y, _, rfl⟩
        rw [List.reverse_cons, List.reverse_cons]
        exact append_lt_append_of_lt hpq ((hlength p hp).trans (hlength q hq).symm) _ _

/-- The tuples whose coordinates pass a test each are counted dimension by dimension. -/
theorem countP_rowMajor {α : Type} (coordinates : α → List Nat) (test : α → Nat → Bool)
    (dims : List α) :
    (rowMajor (dims.map coordinates)).countP (fun p => (dims.zip p).all fun x => test x.1 x.2)
      = (dims.map fun d => (coordinates d).countP (test d)).prod := by
  induction dims with
  | nil => rfl
  | cons d dims ih =>
      -- The tuples behind one choice of the other coordinates pass only if these do.
      have hrow : ∀ p : List Nat, ((coordinates d).map fun x => x :: p).countP
            (fun q => ((d :: dims).zip q).all fun x => test x.1 x.2)
          = if (dims.zip p).all fun x => test x.1 x.2 then (coordinates d).countP (test d)
            else 0 := by
        intro p
        rw [List.countP_map]
        by_cases hp : (dims.zip p).all fun x => test x.1 x.2
        · rw [if_pos hp]
          refine List.countP_congr fun x _ => ?_
          rw [Function.comp_apply, List.zip_cons_cons, List.all_cons, hp, Bool.and_true]
        · rw [if_neg hp, List.countP_eq_zero]
          intro x _
          rw [Function.comp_apply, List.zip_cons_cons, List.all_cons, Bool.and_eq_true]
          exact fun hall => hp hall.2
      -- As many rows count as there are choices of the others that pass, each for the same number.
      have hcount : ∀ ps : List (List Nat), ((ps.map fun p =>
            if (dims.zip p).all fun x => test x.1 x.2 then (coordinates d).countP (test d)
            else 0).sum)
          = (coordinates d).countP (test d)
              * ps.countP fun p => (dims.zip p).all fun x => test x.1 x.2 := by
        intro ps
        rw [List.sum_map_ite]
        simp [List.countP_eq_length_filter, Nat.mul_comm]
      rw [List.map_cons, rowMajor_cons, List.countP_flatMap, List.map_cons, List.prod_cons, ← ih,
        ← hcount]
      exact congrArg List.sum (List.map_congr_left fun p _ => hrow p)

end StencilRtl
