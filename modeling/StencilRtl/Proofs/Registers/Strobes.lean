import Mathlib.Data.Nat.Bitwise
import StencilRtl.Hardware.SlaveInterface
import StencilRtl.Proofs.Rtl.Fields

/-!
# Writing Some of the Bytes

What a register becomes when it is written byte by byte.

The host tells with a strobe for each byte of the bus which bytes of a register it
means. Said in bits that is simple: a bit is the one of the bus if the strobe of its
byte is set and stays otherwise, and `merged` says nothing else. The hardware puts bytes
together, each of them chosen by its strobe, where the last one has as many bits as are
left of the register. A byte is a slice of the merged word, and slices that follow each
other make up the word.

## Main definitions

* `merged`: A register after a write.
* `Rtl.Expr.IsWord`: An expression is worth a number wherever it is read unsigned.

## Theorems

* `Rtl.Expr.isWord_strobedLane`: A byte is a slice of the merged word.
* `Rtl.Expr.assigned_strobed`: The bytes together are the merged word.
-/

namespace StencilRtl

/-- A register after a write: each bit is that of the data if the strobe of its byte is
    set, and stays otherwise. -/
def merged (bits strobes data old : Nat) : Nat :=
  Nat.ofBits fun i : Fin bits =>
    if strobes.testBit (i / 8) then data.testBit i else old.testBit i

theorem merged_lt (bits strobes data old : Nat) : merged bits strobes data old < 2 ^ bits :=
  Nat.ofBits_lt_two_pow _

/-- A slice within one byte of the merged word is the slice of the one it comes from. -/
theorem merged_slice {bits strobes data old lane width : Nat} (hwidth : width ≤ 8)
    (hroom : lane * 8 + width ≤ bits) :
    merged bits strobes data old >>> (lane * 8) % 2 ^ width
      = (if strobes.testBit lane then data else old) >>> (lane * 8) % 2 ^ width := by
  refine Nat.eq_of_testBit_eq fun j => ?_
  rw [Nat.testBit_mod_two_pow, Nat.testBit_mod_two_pow, Nat.testBit_shiftRight,
    Nat.testBit_shiftRight]
  by_cases hj : j < width
  · have hbyte : (lane * 8 + j) / 8 = lane := by omega
    rw [merged, Nat.testBit_ofBits_lt _ _ (by omega)]
    simp only [hbyte]
    split <;> rfl
  · simp only [hj, decide_false, Bool.false_and]

namespace Rtl

namespace Expr

variable {Γ : Typing} {s : State}

/-- An expression of `bits` bits without a sign is worth a number wherever it is read
    unsigned. -/
structure IsWord (Γ : Typing) (s : State) (bits : Nat) (e : Expr) (v : Nat) : Prop where
  size : e.size Γ = bits
  unsigned : e.isSigned = false
  value : ∀ context, e.value Γ s context false = v
  small : v < 2 ^ bits

theorem isWord_ref {name : String} {bits : Nat} (hwidth : Γ.width name = bits)
    (hsmall : s.value name < 2 ^ bits) : (Expr.ref name).IsWord Γ s bits (s.value name) :=
  ⟨by rw [Expr.size, hwidth], by rw [isSigned], fun _ => by rw [Expr.value, extend_false], hsmall⟩

namespace IsWord

variable {bits v : Nat} {e : Expr}

theorem own_eq (h : e.IsWord Γ s bits v) : e.own Γ s = v := by
  rw [own, h.unsigned, h.value]

/-- Some bits of a word, from the bit at `low` upwards. -/
theorem bits_eq (h : e.IsWord Γ s bits v) {low width : Nat} (hroom : low + width ≤ bits) :
    Rtl.bitsOf s.unknown (e.size Γ) (e.value Γ s (e.size Γ) e.isSigned) low width
      = v >>> low % 2 ^ width := by
  rw [h.size, h.unsigned, h.value, Rtl.bitsOf, if_pos hroom]

theorem bitAt (h : e.IsWord Γ s bits v) {index : Nat} (hindex : index < bits) :
    (Expr.bitAt e index).IsWord Γ s 1 (v >>> index % 2 ^ 1) :=
  ⟨by rw [Expr.size], by rw [isSigned], fun _ => by rw [Expr.value, h.bits_eq hindex],
    Nat.mod_lt _ (by decide)⟩

theorem range (h : e.IsWord Γ s bits v) {high low : Nat} (hlow : low ≤ high) (hhigh : high < bits) :
    (Expr.range e high low).IsWord Γ s (high + 1 - low) (v >>> low % 2 ^ (high + 1 - low)) :=
  ⟨by rw [Expr.size], by rw [isSigned],
    fun _ => by rw [Expr.value, h.bits_eq (by omega)], Nat.mod_lt _ (Nat.two_pow_pos _)⟩

/-- The bits of a value that are put into one byte. -/
theorem bitsOf (h : e.IsWord Γ s bits v) {high low : Nat} (hlow : low ≤ high)
    (hhigh : high < bits) :
    (SlaveInterface.bitsOf e high low bits).IsWord Γ s (high + 1 - low)
      (v >>> low % 2 ^ (high + 1 - low)) := by
  unfold SlaveInterface.bitsOf
  split
  · next hone =>
    subst hone
    obtain ⟨rfl, rfl⟩ : low = 0 ∧ high = 0 := by omega
    rw [Nat.shiftRight_zero, Nat.mod_eq_of_lt h.small]
    exact h
  split
  · next hsingle =>
    have hwidth : high + 1 - low = 1 := by omega
    rw [hwidth]
    exact h.bitAt (by omega)
  · exact h.range hlow hhigh

end IsWord

/-- A choice by a bit of a word. -/
theorem isWord_mux {strobes lane bits v w width : Nat} {e a b : Expr}
    (he : e.IsWord Γ s width strobes) (hlane : lane < width) (ha : a.IsWord Γ s bits v)
    (hb : b.IsWord Γ s bits w) :
    (Expr.mux (.bitAt e lane) a b).IsWord Γ s bits (if strobes.testBit lane then v else w) := by
  have hbit : strobes >>> lane % 2 ^ 1 ≠ 0 ↔ strobes.testBit lane = true := by
    rw [Nat.pow_one, Nat.testBit_eq_decide_div_mod_eq, decide_eq_true_eq, Nat.shiftRight_eq_div_pow]
    omega
  refine ⟨?_, ?_, fun context => ?_, ?_⟩
  · rw [Expr.size, ha.size, hb.size, Nat.max_self]
  · rw [isSigned, ha.unsigned, Bool.false_and]
  · have hcondition := (he.bitAt hlane).own_eq
    rw [own] at hcondition
    rw [Expr.value, hcondition, ha.value, hb.value]
    -- The condition is the bit itself, so both choices go the same way.
    by_cases hset : strobes.testBit lane = true
    · rw [if_pos (hbit.mpr hset), if_pos hset]
    · rw [if_neg (mt hbit.mp hset), if_neg hset]
  · split
    · exact ha.small
    · exact hb.small

section

open SlaveInterface

variable {bits strobes data old : Nat} {target : Expr}

/-- A byte of a register after a write is a slice of the merged word. -/
theorem isWord_strobedLane (hstrobes : (Expr.ref "WSTRB").IsWord Γ s (busWidth / 8) strobes)
    (hdata : (Expr.ref "WDATA").IsWord Γ s busWidth data) (htarget : target.IsWord Γ s bits old)
    (hnarrow : bits ≤ busWidth) {lane : Nat} (hlane : lane * 8 < bits) :
    (strobedLane target bits lane).IsWord Γ s (min 8 (bits - lane * 8))
      (merged bits strobes data old >>> (lane * 8) % 2 ^ min 8 (bits - lane * 8)) := by
  have hwidth : min (lane * 8 + 7) (bits - 1) + 1 - lane * 8 = min 8 (bits - lane * 8) := by omega
  rw [merged_slice (Nat.min_le_left _ _) (by omega), ← hwidth, apply_ite (· >>> (lane * 8)),
    apply_ite (· % 2 ^ _)]
  have hbus : busWidth = 32 := rfl
  exact isWord_mux hstrobes (by omega) (hdata.bitsOf (by omega) (by omega))
    (htarget.bitsOf (by omega) (by omega))

/-- Slices that follow each other make up the rest of the word. -/
theorem packed_strobedLanes (hstrobes : (Expr.ref "WSTRB").IsWord Γ s (busWidth / 8) strobes)
    (hdata : (Expr.ref "WDATA").IsWord Γ s busWidth data) (htarget : target.IsWord Γ s bits old)
    (hnarrow : bits ≤ busWidth) {lane count : Nat} (hlanes : lane + count = (bits + 7) / 8) :
    packed Γ s ((List.range' lane count).map (strobedLane target bits))
      = merged bits strobes data old >>> (lane * 8) := by
  induction count generalizing lane with
  | zero =>
      rw [List.range'_zero, List.map_nil, packed, Nat.shiftRight_eq_div_pow, Nat.div_eq_of_lt]
      exact Nat.lt_of_lt_of_le (merged_lt ..) (Nat.pow_le_pow_right (by decide) (by omega))
  | succ count ih =>
      have hlane : lane * 8 < bits := by omega
      have hword := isWord_strobedLane hstrobes hdata htarget hnarrow hlane
      have hown := hword.own_eq
      rw [own] at hown
      rw [List.range'_succ, List.map_cons, packed, hown, hword.size, ih (by omega)]
      generalize hslice : merged bits strobes data old >>> (lane * 8) = slice
      have hnext : merged bits strobes data old >>> ((lane + 1) * 8) = slice / 2 ^ 8 := by
        rw [← hslice, Nat.add_mul, Nat.one_mul, Nat.shiftRight_add, Nat.shiftRight_eq_div_pow _ 8]
      rw [hnext]
      by_cases hfull : 8 ≤ bits - lane * 8
      · rw [Nat.min_eq_left hfull, Nat.mod_add_div]
      · -- Only the last slice is shorter, and nothing is left behind it.
        have hlt : slice < 2 ^ (bits - lane * 8) := by
          rw [← hslice, Nat.shiftRight_eq_div_pow]
          refine Nat.div_lt_of_lt_mul ?_
          rw [← Nat.pow_add, Nat.add_sub_of_le (by omega)]
          exact merged_lt ..
        have hnone : slice / 2 ^ 8 = 0 := Nat.div_eq_of_lt
          (Nat.lt_of_lt_of_le hlt (Nat.pow_le_pow_right (by decide) (by omega)))
        rw [Nat.min_eq_right (by omega), hnone, Nat.mul_zero, Nat.add_zero, Nat.mod_eq_of_lt hlt]

/-- A register that is written becomes the merged word. -/
theorem assigned_strobed (hstrobes : (Expr.ref "WSTRB").IsWord Γ s (busWidth / 8) strobes)
    (hdata : (Expr.ref "WDATA").IsWord Γ s busWidth data) (htarget : target.IsWord Γ s bits old)
    (hnarrow : bits ≤ busWidth) :
    (strobed target bits).assigned Γ s bits = merged bits strobes data old := by
  have hlanes : ∀ e ∈ (List.range ((bits + 7) / 8)).map (strobedLane target bits),
      e.isSigned = false ∧ ∀ context, e.value Γ s context false = e.own Γ s := by
    intro e he
    rcases List.mem_map.mp he with ⟨lane, hlane, rfl⟩
    rw [List.mem_range] at hlane
    have hbelow : lane * 8 < bits := by omega
    have hword := isWord_strobedLane hstrobes hdata htarget hnarrow hbelow
    exact ⟨hword.unsigned, fun context => by rw [hword.value, hword.own_eq]⟩
  have hunsigned : (strobed target bits).isSigned = false := by
    rw [strobed, isSigned]
    -- A register without bits is made up of no bytes.
    cases hparts : (List.range ((bits + 7) / 8)).map (strobedLane target bits) with
    | nil => rfl
    | cons e rest =>
        have he := (hlanes e (hparts ▸ List.mem_cons_self ..)).1
        rw [allSigned, he, Bool.false_and, Bool.false_and]
  rw [assigned, hunsigned, strobed, Expr.value, joined_eq_packed fun e he => (hlanes e he).2 _,
    List.range_eq_range', packed_strobedLanes hstrobes hdata htarget hnarrow (Nat.zero_add _),
    Nat.zero_mul, Nat.shiftRight_zero, Nat.mod_eq_of_lt (merged_lt ..)]

end

end Expr

end Rtl

end StencilRtl
