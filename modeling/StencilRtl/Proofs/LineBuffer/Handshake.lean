import StencilRtl.Hardware.LineBuffer
import StencilRtl.Proofs.LineBuffer.Gather
import StencilRtl.Proofs.Rtl.Counters
import StencilRtl.Proofs.Rtl.Fields

/-!
# Stages Between Streams

What a stage of a line buffer makes of the stream it reads, cycle by cycle.

`Gathers` is what is said of a stage: when it is ready, when it offers something and
what that is, all by what it has taken so far. It follows that what has moved on its
output is what it makes of what has moved on its input, whatever the patterns were in
which words were offered and taken.

## Main definitions

* `Rtl.Gathers`: A stage does what a `Gather` says.

## Theorems

* `Rtl.Gathers.transfers_eq`: What has moved on the output of a stage.
-/

namespace StencilRtl

namespace Rtl

/-- A stage makes of its input what a `Gather` says: it takes a word when it has
    nothing to make of it or when what it makes of it is taken, and offers what it
    makes of a word while that word is offered. -/
structure Gathers (τ : Nat → State) (g : Gather) (input output : String) : Prop where
  ready : ∀ t, (τ (t + 1)).value (input ++ "_ready") = 1 ↔
    (τ (t + 1)).value (output ++ "_ready") = 1 ∨ ¬g.Emits (transfers τ input t).length
  valid : ∀ t, (τ (t + 1)).value (output ++ "_valid") = 1 ↔
    (τ (t + 1)).value (input ++ "_valid") = 1 ∧ g.Emits (transfers τ input t).length
  value : ∀ t, g.Emits (transfers τ input t).length →
    (τ (t + 1)).value (output ++ "_value")
      = g.output (transfers τ input t ++ [(τ (t + 1)).value (input ++ "_value")])
          (transfers τ input t).length

/-- What has moved on the output of a stage is what it makes of what has moved on its
    input. -/
theorem Gathers.transfers_eq {τ : Nat → State} {g : Gather} {input output : String}
    (h : Gathers τ g input output) (t : Nat) :
    transfers τ output t = g.outputs (transfers τ input t) := by
  induction t with
  | zero => rfl
  | succ t ih =>
      have hready := h.ready t
      have hvalid := h.valid t
      rw [transfers_succ, transfers_succ, ih]
      -- Something moves on the output only if something moves on the input.
      by_cases hin : (τ (t + 1)).Moves input
      · rw [if_pos hin, Gather.outputs_concat]
        by_cases hemits : g.Emits (transfers τ input t).length
        · have hout : (τ (t + 1)).Moves output :=
            ⟨hvalid.mpr ⟨hin.1, hemits⟩, (hready.mp hin.2).resolve_right (not_not_intro hemits)⟩
          rw [if_pos hout, if_pos hemits, h.value t hemits]
        · have hout : ¬(τ (t + 1)).Moves output := fun hout => hemits (hvalid.mp hout.1).2
          rw [if_neg hout, if_neg hemits]
      · have hout : ¬(τ (t + 1)).Moves output :=
          fun hout => hin ⟨(hvalid.mp hout.1).1, hready.mpr (.inl hout.2)⟩
        rw [if_neg hin, if_neg hout, List.append_nil, List.append_nil]

end Rtl

end StencilRtl
