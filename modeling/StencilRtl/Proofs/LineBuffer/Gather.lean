import Mathlib.Algebra.BigOperators.Ring.List
import StencilRtl.Proofs.LineBuffer.Layout

/-!
# Gathering

What a stage of a line buffer makes of the words it takes.

Both stages do the same thing. They look at words that came a fixed distance apart:
neighbouring tiles of a row for the column stage, tiles of one column for the row
stage. They keep the last few of those, and make a word of them and the one just
taken, except where too few came before it in the same row or the same image.

So a stage is given by four things, the distance, the number of words at that
distance before everything starts anew, the number kept, and what is made of them.
What a run of a stage puts out is then a function on lists, and two stages one after
the other are two functions. No memory is left in it: everything is looked up among
all words ever taken. What is made at the end of one image and the beginning of the
next does not mix them, which is `outputs_append`, and so a sequence of images can be
taken apart into images and an image into rows.

## Main definitions

* `Gather`: What a stage looks at and what it makes of it.
* `Gather.outputs`: What it puts out in all.
* `frame`: A list of rows.

## Theorems

* `Gather.outputs_concat`: One more word.
* `Gather.outputs_append`, `Gather.outputs_flatMap`: Images one after the other.
* `Gather.outputs_frame`: All that is put out for one image.
-/

namespace StencilRtl

/-- What a stage makes of the words it takes: which ones it looks at, and what it
    makes of them, the oldest one first. -/
structure Gather where
  stride : Nat
  period : Nat
  kept : Nat
  make : List Nat → Nat

namespace Gather

variable (g : Gather)

/-- Enough words have come before the one with number `n`. -/
def Emits (n : Nat) : Prop := g.kept ≤ n / g.stride % g.period

instance (n : Nat) : Decidable (g.Emits n) := inferInstanceAs (Decidable (_ ≤ _))

/-- The words that are looked at when the one with number `n` is taken. -/
def sources (xs : List Nat) (n : Nat) : List Nat :=
  (List.range (g.kept + 1)).map fun q => xs.getD (n + q * g.stride - g.kept * g.stride) 0

/-- What is put out when the word with number `n` is taken. -/
def output (xs : List Nat) (n : Nat) : Nat := g.make (g.sources xs n)

/-- All that is put out for some words. -/
def outputs (xs : List Nat) : List Nat :=
  ((List.range xs.length).filter fun n => g.Emits n).map (g.output xs)

variable {g}

theorem sources_getD {xs : List Nat} {n q : Nat} (hq : q ≤ g.kept) :
    (g.sources xs n).getD q 0 = xs.getD (n + q * g.stride - g.kept * g.stride) 0 :=
  getD_map_range _ (Nat.lt_succ_of_le hq)

/-- What is looked at has been taken. -/
theorem output_append {xs : List Nat} (ys : List Nat) {n : Nat} (hn : n < xs.length) :
    g.output (xs ++ ys) n = g.output xs n := by
  refine congrArg g.make (List.map_congr_left fun q hq => ?_)
  have hq : q < g.kept + 1 := List.mem_range.mp hq
  have hstride : q * g.stride ≤ g.kept * g.stride := Nat.mul_le_mul_right _ (by omega)
  rw [List.getD_append _ _ _ _ (by omega)]

theorem outputs_eq_append (xs ys : List Nat) : g.outputs (xs ++ ys) = g.outputs xs
    ++ ((List.range ys.length).filter fun n => g.Emits (xs.length + n)).map
      fun n => g.output (xs ++ ys) (xs.length + n) := by
  have hold : ((List.range xs.length).filter fun n => g.Emits n).map (g.output (xs ++ ys))
      = g.outputs xs := by
    refine List.map_congr_left fun n hn => output_append ys ?_
    exact List.mem_range.mp (List.mem_filter.mp hn).1
  rw [outputs, List.length_append, List.range_add, List.filter_append, List.map_append, hold,
    List.filter_map, List.map_map]
  rfl

/-- One more word. -/
theorem outputs_concat (xs : List Nat) (x : Nat) : g.outputs (xs ++ [x]) = g.outputs xs
    ++ if g.Emits xs.length then [g.output (xs ++ [x]) xs.length] else [] := by
  rw [outputs_eq_append, List.length_singleton, List.range_one]
  by_cases h : g.Emits xs.length
  · rw [if_pos h, List.filter_cons_of_pos (by simpa using h), List.filter_nil, List.map_singleton,
      Nat.add_zero]
  · rw [if_neg h, List.filter_cons_of_neg (by simpa using h), List.filter_nil, List.map_nil]

/-- What has been put out stays. -/
theorem outputs_prefix {xs ys : List Nat} (h : xs <+: ys) : g.outputs xs <+: g.outputs ys := by
  rcases h with ⟨rest, rfl⟩
  rw [outputs_eq_append]
  exact List.prefix_append _ _

/-- What is put out for the words after some whole images has nothing to do with
    those images. -/
theorem outputs_append {xs : List Nat} (h : g.stride * g.period ∣ xs.length) (ys : List Nat) :
    g.outputs (xs ++ ys) = g.outputs xs ++ g.outputs ys := by
  rcases h with ⟨m, hm⟩
  -- Rows and columns begin anew behind whole images,
  have hemits : ∀ n, g.Emits (xs.length + n) ↔ g.Emits n := by
    intro n
    rw [Emits, Emits, hm, Nat.mul_assoc]
    by_cases hs : g.stride = 0
    · rw [hs, Nat.zero_mul, Nat.zero_add]
    · rw [Nat.mul_add_div (by omega), Nat.mul_add_mod]
  -- and the rows a window needs all lie behind them.
  have houtput : ∀ n, g.Emits n → g.output (xs ++ ys) (xs.length + n) = g.output ys n := by
    intro n hn
    refine congrArg g.make (List.map_congr_left fun q _ => ?_)
    have hkept : g.kept * g.stride ≤ n := by
      have hle : g.kept ≤ n / g.stride := Nat.le_trans hn (Nat.mod_le _ _)
      exact Nat.le_trans (Nat.mul_le_mul_right _ hle) (Nat.div_mul_le_self _ _)
    rw [List.getD_append_right _ _ _ _ (by omega)]
    exact congrArg (ys.getD · 0) (by omega)
  have hfilter : ((List.range ys.length).filter fun n => g.Emits (xs.length + n))
      = (List.range ys.length).filter fun n => g.Emits n :=
    List.filter_congr fun n _ => decide_eq_decide.mpr (hemits n)
  rw [outputs_eq_append, hfilter, outputs.eq_def g ys]
  refine congrArg _ (List.map_congr_left fun n hn => houtput n ?_)
  exact of_decide_eq_true (List.mem_filter.mp hn).2

/-- Images one after the other. -/
theorem outputs_flatMap {f : Nat → List Nat} (h : ∀ k, g.stride * g.period ∣ (f k).length)
    (n : Nat) : g.outputs ((List.range n).flatMap f) = (List.range n).flatMap (g.outputs ∘ f) := by
  induction n with
  | zero => rfl
  | succ n ih =>
      have hlen : g.stride * g.period ∣ ((List.range n).flatMap f).length := by
        rw [List.length_flatMap]
        refine List.dvd_sum fun l hl => ?_
        rcases List.mem_map.mp hl with ⟨k, _, rfl⟩
        exact h k
      rw [List.range_succ, List.flatMap_append, List.flatMap_append, List.flatMap_singleton,
        List.flatMap_singleton, outputs_append hlen, ih, Function.comp_apply]

end Gather

/-- The rows of an image one after the other, each with as many words as `width`. -/
def frame (width height : Nat) (f : Nat → Nat → Nat) : List Nat :=
  (List.range (width * height)).map fun n => f (n / width) (n % width)

theorem frame_eq_flatMap (width height : Nat) (f : Nat → Nat → Nat) :
    frame width height f = (List.range height).flatMap fun r => (List.range width).map (f r) := by
  rw [frame, ← flatMap_range_map]
  refine List.flatMap_congr fun r _ => List.map_congr_left fun c hc => ?_
  have hplace := pair_mod_div (List.mem_range.mp hc) r
  rw [hplace.1, hplace.2]

theorem frame_one (height : Nat) (f : Nat → Nat → Nat) :
    frame 1 height f = (List.range height).map fun r => f r 0 := by
  rw [frame, Nat.one_mul]
  exact List.map_congr_left fun r _ => by rw [Nat.div_one, Nat.mod_one]

theorem length_frame (width height : Nat) (f : Nat → Nat → Nat) :
    (frame width height f).length = width * height := by
  rw [frame, List.length_map, List.length_range]

/-- The numbers from some number on. -/
theorem filter_le_range (m n : Nat) :
    ((List.range n).filter fun i => m ≤ i) = (List.range (n - m)).map (m + ·) := by
  by_cases h : m ≤ n
  -- The numbers below `m` are left out, the others stay as they are.
  · rcases Nat.exists_eq_add_of_le h with ⟨k, rfl⟩
    have hbelow : ((List.range m).filter fun i => decide (m ≤ i)) = [] :=
      List.filter_eq_nil_iff.mpr fun i hi => by
        have hi : i < m := List.mem_range.mp hi
        simpa using hi
    have habove : (((List.range k).map (m + ·)).filter fun i => decide (m ≤ i))
        = (List.range k).map (m + ·) := by
      refine List.filter_eq_self.mpr fun i hi => ?_
      rcases List.mem_map.mp hi with ⟨j, _, rfl⟩
      exact decide_eq_true (Nat.le_add_right m j)
    rw [List.range_add, List.filter_append, hbelow, habove, List.nil_append,
      Nat.add_sub_cancel_left]
  · rw [Nat.sub_eq_zero_of_le (by omega), List.range_zero, List.map_nil, List.filter_eq_nil_iff]
    intro i hi
    have hi : i < n := List.mem_range.mp hi
    rw [decide_eq_true_eq]
    omega

/-- All that is put out for one image: what is made at each place that has enough
    rows before it. -/
theorem Gather.outputs_frame {g : Gather} (f : Nat → Nat → Nat) :
    g.outputs (frame g.stride g.period f) = frame g.stride (g.period - g.kept) fun r c =>
      g.make ((List.range (g.kept + 1)).map fun q => f (r + q) c) := by
  -- Within one image there are enough rows from row `kept` on.
  have hemits : ∀ n ∈ List.range (g.stride * g.period),
      decide (g.Emits n) = decide (g.stride * g.kept ≤ n) := by
    intro n hn
    have hlt : n < g.stride * g.period := List.mem_range.mp hn
    have hpos : 0 < g.stride := Nat.pos_of_mul_pos_right (Nat.lt_of_le_of_lt (Nat.zero_le _) hlt)
    refine decide_eq_decide.mpr ?_
    rw [Emits, Nat.mod_eq_of_lt (Nat.div_lt_of_lt_mul hlt), Nat.le_div_iff_mul_le hpos,
      Nat.mul_comm]
  rw [outputs, length_frame, List.filter_congr hemits, filter_le_range, ← Nat.mul_sub, frame,
    List.map_map]
  refine List.map_congr_left fun n hn => congrArg g.make (List.map_congr_left fun q hq => ?_)
  have hn : n < g.stride * (g.period - g.kept) := List.mem_range.mp hn
  have hq : q < g.kept + 1 := List.mem_range.mp hq
  have hpos : 0 < g.stride := Nat.pos_of_mul_pos_right (Nat.lt_of_le_of_lt (Nat.zero_le _) hn)
  -- The word `q` rows further down is `q` strides later.
  have hplace : g.stride * g.kept + n + q * g.stride - g.kept * g.stride = n + g.stride * q := by
    rw [Nat.mul_comm g.kept, Nat.mul_comm q]
    omega
  have hroom : n + g.stride * q < g.stride * g.period := by
    have hrow : n / g.stride < g.period - g.kept := Nat.div_lt_of_lt_mul hn
    have hrow' := Nat.zero_le (n / g.stride)
    have hsplit := Nat.div_add_mod n g.stride
    have hcol := Nat.mod_lt n hpos
    have hrows : g.stride * (n / g.stride + q + 1) ≤ g.stride * g.period :=
      Nat.mul_le_mul_left _ (by omega)
    rw [Nat.mul_add, Nat.mul_add, Nat.mul_one] at hrows
    omega
  rw [hplace, getD_map_range _ hroom, Nat.add_mul_div_left _ _ hpos,
    Nat.add_mul_mod_self_left]

end StencilRtl
