import Mathlib.Algebra.BigOperators.Group.List.Basic
import StencilRtl.Geometry.LoopControl
import StencilRtl.Proofs.Fallible
import StencilRtl.Proofs.Tuples

/-!
# Positions of a Nest of Loops

The order in which a nest of loops visits its positions, and the fact that a
nest of counters visits them in that order.

A nest visits the tuples of its variables' values lexicographically, the last
variable fastest. `positions` lists them the way a reader would write the loops
down, one inside the other. Nothing can be counted in that form, so `position`
gives the tuple with a given number by division, outermost digit first, and
`positions_eq_map` says that the two agree.

The counters of a controller do neither. They look at what they hold and carry
from the inside out, and `stepNest_position` is what that carrying amounts to:
from the tuple with number `k` to the one with number `k + 1`, or back to the
first with a carry out of the nest. Every check the counters make is against a
last value that has to be a word, so the variables are assumed to run in the
sense of `LoopVar.Runs`, and the lemmas conclude that nothing gives way.

## Main definitions

* `LoopVar.Runs`: A variable takes a value, and its last value is a word.
* `LoopVar.positions`: The tuples a nest visits, in order.
* `LoopVar.volume`: The number of tuples.
* `LoopVar.position`: The tuple with a given number.

## Theorems

* `positions_eq_map`: The tuples in order are those numbered from zero.
* `positions_append`: Nests inside nests visit pairs of positions.
* `allAtMax_position`: The last tuple is recognised.
* `stepNest_position`: A move of the counters goes to the next tuple.
-/

namespace StencilRtl

namespace LoopVar

/-- The variable takes at least one value, and its last value is a word. -/
def Runs (v : LoopVar) : Prop := 0 < v.extent ∧ ∃ last, v.max = .ok last

/-- The last value of a variable is found if the one after it is a word. -/
theorem max_ok {v : LoopVar} {last : Nat} (h : v.max = .ok last) :
    v.min + v.extent < Word.limit ∧ last = v.min + v.extent - 1 := by
  rcases Fallible.bind_ok.mp h with ⟨sum, hadd, hsub⟩
  rcases Word.add_eq_ok.mp hadd with ⟨hlimit, rfl⟩
  exact ⟨hlimit, (Word.sub_eq_ok.mp hsub).2.symm⟩

/-- A variable that runs ends `extent - 1` above its first value. -/
theorem Runs.max_eq {v : LoopVar} (h : v.Runs) : v.max = .ok (v.min + v.extent - 1) := by
  rcases h with ⟨_, last, hlast⟩
  rw [hlast, (max_ok hlast).2]

/-- Every value of a variable that runs is a word, and so is the one after it. -/
theorem Runs.lt_limit {v : LoopVar} (h : v.Runs) : v.min + v.extent < Word.limit := by
  rcases h with ⟨_, last, hlast⟩
  exact (max_ok hlast).1

/-- The tuples a nest visits, in order: lexicographically, the last variable
    fastest. -/
def positions : List LoopVar → List (List Nat)
  | [] => [[]]
  | v :: inner =>
      (List.range' v.min v.extent).flatMap fun value => (positions inner).map (value :: ·)

/-- The number of tuples a nest visits. -/
def volume (vars : List LoopVar) : Nat := (vars.map LoopVar.extent).prod

/-- The tuple with number `k`. -/
def position : List LoopVar → Nat → List Nat
  | [], _ => []
  | v :: inner, k => (v.min + k / volume inner) :: position inner (k % volume inner)

@[simp] theorem volume_nil : volume [] = 1 := rfl

@[simp] theorem volume_cons (v : LoopVar) (inner : List LoopVar) :
    volume (v :: inner) = v.extent * volume inner := by
  simp only [volume, List.map_cons, List.prod_cons]

theorem volume_append (outer inner : List LoopVar) :
    volume (outer ++ inner) = volume outer * volume inner := by
  simp only [volume, List.map_append, List.prod_append]

theorem volume_pos {vars : List LoopVar} (h : ∀ v ∈ vars, 0 < v.extent) : 0 < volume vars := by
  induction vars with
  | nil => exact Nat.one_pos
  | cons v inner ih =>
      rw [volume_cons]
      exact Nat.mul_pos (h v (List.mem_cons_self ..))
        (ih fun w hw => h w (List.mem_cons_of_mem v hw))

@[simp] theorem length_position (vars : List LoopVar) (k : Nat) :
    (position vars k).length = vars.length := by
  induction vars generalizing k with
  | nil => rfl
  | cons v inner ih => simp only [position, List.length_cons, ih]

/-- The first tuple holds the first values. -/
theorem position_zero (vars : List LoopVar) : position vars 0 = vars.map LoopVar.min := by
  induction vars with
  | nil => rfl
  | cons v inner ih =>
      simp only [position, Nat.zero_div, Nat.zero_mod, Nat.add_zero, ih, List.map_cons]

/-- The tuples in order are those numbered from zero. -/
theorem positions_eq_map (vars : List LoopVar) :
    positions vars = (List.range (volume vars)).map (position vars) := by
  induction vars with
  | nil => rfl
  | cons v inner ih =>
      rw [volume_cons, Nat.mul_comm, ← flatMap_range_map, positions, List.range'_eq_map_range,
        List.flatMap_map, ih]
      refine List.flatMap_congr fun i _ => ?_
      rw [List.map_map]
      refine List.map_congr_left fun j hj => ?_
      have hpair := pair_mod_div (List.mem_range.mp hj) i
      simp only [Function.comp_apply, position, hpair.1, hpair.2]

theorem length_positions (vars : List LoopVar) : (positions vars).length = volume vars := by
  rw [positions_eq_map, List.length_map, List.length_range]

/-- The tuples before number `n` and the tuple with that number. -/
theorem take_succ_positions {vars : List LoopVar} {n : Nat} (h : n < volume vars) :
    (positions vars).take (n + 1) = (positions vars).take n ++ [position vars n] := by
  have hget : (positions vars)[n]? = some (position vars n) := by
    rw [positions_eq_map, List.getElem?_map, List.getElem?_range h]
    rfl
  rw [List.take_add_one, hget]
  rfl

/-- A nest inside a nest visits its positions at every position of the outer
    one. -/
theorem position_append (outer inner : List LoopVar) (k : Nat)
    (hk : k < volume (outer ++ inner)) :
    position (outer ++ inner) k
      = position outer (k / volume inner) ++ position inner (k % volume inner) := by
  induction outer generalizing k with
  | nil =>
      have hk : k < volume inner := hk
      rw [Nat.mod_eq_of_lt hk]
      rfl
  | cons v outer ih =>
      rw [List.cons_append, volume_cons] at hk
      have hpos : 0 < volume (outer ++ inner) := Nat.pos_of_mul_pos_left (Nat.zero_lt_of_lt hk)
      have hrest := ih (k % volume (outer ++ inner)) (Nat.mod_lt k hpos)
      rw [List.cons_append, position, hrest, position, volume_append, List.cons_append,
        Nat.mod_mul_left_div_self, Nat.mod_mul_left_mod, Nat.div_div_eq_div_mul,
        Nat.mul_comm (volume inner)]

/-- The last tuple is the one at which every variable has its last value. -/
theorem allAtMax_position {vars : List LoopVar} (hv : ∀ v ∈ vars, v.Runs) {k : Nat}
    (hk : k < volume vars) :
    LoopState.allAtMax vars (position vars k) = .ok (decide (k + 1 = volume vars)) := by
  induction vars generalizing k with
  | nil =>
      have hzero : k = 0 := by simpa only [volume_nil, Nat.lt_one_iff] using hk
      rw [hzero]
      rfl
  | cons v inner ih =>
      have hrun := hv v (List.mem_cons_self ..)
      have hinner : ∀ w ∈ inner, w.Runs := fun w hw => hv w (List.mem_cons_of_mem v hw)
      have hm : 0 < volume inner := volume_pos fun w hw => (hinner w hw).1
      rw [volume_cons] at hk ⊢
      have hq : k / volume inner < v.extent := Nat.div_lt_of_lt_mul (by rwa [Nat.mul_comm])
      have hr : k % volume inner < volume inner := Nat.mod_lt k hm
      have hsplit : volume inner * (k / volume inner) + k % volume inner = k := Nat.div_add_mod ..
      generalize hQ : k / volume inner = q at *
      generalize hR : k % volume inner = r at *
      simp only [position, LoopState.allAtMax, hQ, hR, hrun.max_eq, bind, Except.bind]
      -- A place is written as `q` whole turns of the inner variables and `r` steps more.
      by_cases hlast : q + 1 = v.extent
      · have hval : v.min + q = v.min + v.extent - 1 := by omega
        rw [if_pos hval, ih hinner hr]
        have hiff : r + 1 = volume inner ↔ k + 1 = v.extent * volume inner := by
          rw [← hlast, Nat.succ_mul, Nat.mul_comm]
          omega
        simp only [hiff]
      · have hval : ¬ v.min + q = v.min + v.extent - 1 := by omega
        have hne : ¬ k + 1 = v.extent * volume inner := by
          intro heq
          have hle : (q + 2) * volume inner ≤ v.extent * volume inner :=
            Nat.mul_le_mul_right _ (by omega)
          rw [Nat.add_mul, Nat.mul_comm] at hle
          omega
        rw [if_neg hval]
        simp only [hne, decide_false]
        rfl

/-- A move of the counters goes from a tuple to the next one, carrying out of the
    nest when there is none. -/
theorem stepNest_position {vars : List LoopVar} (hv : ∀ v ∈ vars, v.Runs) {k : Nat}
    (hk : k < volume vars) :
    LoopState.stepNest vars (position vars k)
      = .ok (decide (k + 1 = volume vars), position vars ((k + 1) % volume vars)) := by
  induction vars generalizing k with
  | nil =>
      have hzero : k = 0 := by simpa only [volume_nil, Nat.lt_one_iff] using hk
      rw [hzero]
      rfl
  | cons v inner ih =>
      have hrun := hv v (List.mem_cons_self ..)
      have hinner : ∀ w ∈ inner, w.Runs := fun w hw => hv w (List.mem_cons_of_mem v hw)
      have hm : 0 < volume inner := volume_pos fun w hw => (hinner w hw).1
      rw [volume_cons] at hk ⊢
      have hr : k % volume inner < volume inner := Nat.mod_lt k hm
      have hq : k / volume inner < v.extent := Nat.div_lt_of_lt_mul (by rwa [Nat.mul_comm])
      have hsplit : volume inner * (k / volume inner) + k % volume inner = k := Nat.div_add_mod ..
      generalize hQ : k / volume inner = q at *
      generalize hR : k % volume inner = r at *
      simp only [position, LoopState.stepNest, hQ, hR, ih hinner hr, bind, Except.bind]
      by_cases hcarry : r + 1 = volume inner
      · -- The nest inside wraps, so this variable moves.
        have hnext : k + 1 = volume inner * (q + 1) := by rw [Nat.mul_succ]; omega
        simp only [hcarry, decide_true, if_true, hrun.max_eq]
        by_cases hlast : q + 1 = v.extent
        · have hval : v.min + q = v.min + v.extent - 1 := by omega
          have hwrap : k + 1 = v.extent * volume inner := by rw [hnext, hlast, Nat.mul_comm]
          simp only [hval, if_true, hwrap, decide_true, Nat.mod_self, Nat.zero_div,
            Nat.zero_mod, Nat.add_zero]
          rfl
        · have hval : ¬ v.min + q = v.min + v.extent - 1 := by omega
          have hlt : k + 1 < v.extent * volume inner := by
            rw [hnext, Nat.mul_comm v.extent]
            exact Nat.mul_lt_mul_of_pos_left (by omega) hm
          have hadd : Word.add (v.min + q) 1 = .ok (v.min + q + 1) :=
            Word.add_eq_ok.mpr ⟨by have := hrun.lt_limit; omega, rfl⟩
          simp only [hval, if_false, hadd, Nat.mod_eq_of_lt hlt, Nat.ne_of_lt hlt, decide_false]
          rw [hnext, Nat.mul_div_cancel_left _ hm, Nat.mul_mod_right, Nat.mod_self]
          rfl
      · -- It goes on, so this variable stays.
        have hlt : r + 1 < volume inner := by omega
        have hne : ¬ k + 1 = v.extent * volume inner := by
          intro heq
          have hdvd : volume inner ∣ r + 1 := by
            have hsum : volume inner ∣ volume inner * q + (r + 1) :=
              ⟨v.extent, by rw [Nat.mul_comm (volume inner) v.extent]; omega⟩
            exact (Nat.dvd_add_right (Nat.dvd_mul_right ..)).mp hsum
          exact absurd (Nat.le_of_dvd (by omega) hdvd) (by omega)
        have hkl : k + 1 < v.extent * volume inner := by omega
        have hdiv : (k + 1) / volume inner = q := by
          rw [← hsplit, Nat.add_assoc, Nat.mul_add_div hm, Nat.div_eq_of_lt hlt, Nat.add_zero]
        have hmod : (k + 1) % volume inner = r + 1 := by
          rw [← hsplit, Nat.add_assoc, Nat.mul_add_mod, Nat.mod_eq_of_lt hlt]
        simp only [hcarry, decide_false, Bool.false_eq_true, if_false, hne,
          Nat.mod_eq_of_lt hkl, hdiv, hmod, Nat.mod_eq_of_lt hlt]
        rfl

end LoopVar

end StencilRtl
