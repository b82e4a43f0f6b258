import StencilRtl.Proofs.Answers.Printing
import StencilRtl.Proofs.Netlist.Attachment

/-!
# Kernels That Are Answered

A moderate kernel is refused or becomes text.

Reading a moderate kernel answers, and what it answers with is a small design whose components
have the ports of their kinds, so all backends answer as well. In between no word overflows,
nothing is divided by zero, nothing without bits is declared, and nothing is looked up that is
not there.

Kernels that are not moderate need not be answered. The loop of `farBelow` is refused for its
range, but the range is a part of the text of the refusal, and its end is no signed word.

## Theorems

* `Kernel.Moderate.never_faults`: Neither reading a moderate kernel nor writing its design gives
  way.
* `ofKernel_farBelow`: A kernel whose refusal gives way.
-/

namespace StencilRtl

open Fallible

/-- A moderate kernel becomes a design or is refused with an error, and its design is written in
    every form or refused with an error. Nothing gives way. -/
theorem Kernel.Moderate.never_faults {k : Kernel} (h : k.Moderate) :
    (∀ fault, Netlist.ofKernel k ≠ .error (.fault fault)) ∧
      ∀ n, Netlist.ofKernel k = .ok n → ∀ (b : Backend) (fault : Fault),
        (b.run n).1 ≠ .error (.fault fault) := by
  generalize hx : Netlist.ofKernel k = x
  have hdesign : Answers x Netlist.Small := Netlist.answers_ofKernel h hx
  refine ⟨hdesign.ne_fault, fun n hn b => ?_⟩
  have hstandard := (Netlist.uniform_of_ofKernel (hx.trans hn)).standard
  exact (Backend.answers_run (hdesign.of_eq hn) hstandard b).ne_fault

/-- A kernel with a router is moderate, and a design comes of it. -/
theorem never_faults_routed : Netlist.routed.Moderate ∧
    ∃ n, Netlist.ofKernel Netlist.routed = .ok n ∧ ∀ (b : Backend) (fault : Fault),
      (b.run n).1 ≠ .error (.fault fault) := by
  have hmoderate : Netlist.routed.Moderate := by decide +kernel
  have haccepted : (Netlist.ofKernel Netlist.routed).toBool = true := by decide +kernel
  rcases exists_ok haccepted with ⟨n, hn⟩
  exact ⟨hmoderate, n, hn, hmoderate.never_faults.2 n hn⟩

/-- A loop over a range that begins and ends below zero. -/
def farBelow : Kernel :=
  ⟨"far", [], .loop "x" (.intImm (.int 64) (-1)) (.intImm (.int 64) Int64.minValue) .serial
    (.block [])⟩

/-- The end of the range is computed for the text of the refusal, and it is no signed word. -/
theorem ofKernel_farBelow : Netlist.ofKernel farBelow = .error (.fault .overflow) := by
  have hends : (Netlist.ofKernel farBelow).map (fun _ => ()) = .error (.fault .overflow) := by
    decide +kernel
  cases hx : Netlist.ofKernel farBelow with
  | ok n => exact absurd (hx ▸ hends) (by simp [Except.map])
  | error failure =>
      rw [hx] at hends
      rw [Except.error.inj hends]

end StencilRtl
