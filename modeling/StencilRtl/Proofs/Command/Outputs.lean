import StencilRtl.Command.Run
import StencilRtl.Kernel.Builder
import StencilRtl.Proofs.Fallible
import StencilRtl.Proofs.Netlist.KindOrder

/-!
# Outputs of Failed Runs

What is left of the file in which a design should have been written.

A run that reports an error has not written anything yet. But a form that opens
its file first has emptied it by then. The uses of modules are found out before
the file is opened. A register header opens it first and cannot be refused
afterwards: all it computes are sizes, and those give way instead of reporting
an error. The text of all modules opens the file first as well, and then the
top module is made, which may be refused for many reasons.

## Main definitions

* `Fallible.Unrefused`: A computation that reports no error.
* `FileTree.Opens`: A file can be opened to be written.

## Theorems

* `Netlist.unrefused_registerHeader`: A header is not refused.
* `FileTree.read?_put`: What is read after a text has been put into a file.
* `writeDesign_of_error`: The files after an error.
* `output_kept_iff`: When the output is left as it was.
-/

namespace StencilRtl

namespace Fallible

variable {α β : Type}

/-- A computation that may give way, but is never refused. -/
def Unrefused (x : Fallible α) : Prop := ∀ error, x ≠ .error (.error error)

theorem Unrefused.ok (a : α) : Unrefused (.ok a) := fun _ h => by cases h

theorem Unrefused.bind {x : Fallible α} {f : α → Fallible β} (hx : Unrefused x)
    (hf : ∀ a, Unrefused (f a)) : Unrefused (x >>= f) := by
  cases x with
  | error e => exact fun error h => hx error (congrArg Except.error (Except.error.inj h))
  | ok a => exact hf a

theorem Unrefused.foldlM {f : β → α → Fallible β} (hf : ∀ b a, Unrefused (f b a)) (xs : List α)
    (b : β) : Unrefused (xs.foldlM f b) := by
  induction xs generalizing b with
  | nil => exact .ok b
  | cons x rest ih =>
      rw [List.foldlM_cons]
      exact (hf b x).bind ih

theorem Unrefused.mapM {f : α → Fallible β} (hf : ∀ a, Unrefused (f a)) (xs : List α) :
    Unrefused (xs.mapM f) := by
  induction xs with
  | nil => exact .ok []
  | cons x rest ih =>
      rw [List.mapM_cons]
      exact (hf x).bind fun _ => ih.bind fun _ => .ok _

end Fallible

open Fallible

/-- A product of words has no reason to be refused. -/
theorem Word.unrefused_product (sizes : List Nat) : Unrefused (Word.product sizes) := by
  refine .foldlM (fun a b error h => ?_) sizes 1
  unfold mul fit at h
  split at h
  · cases h
  · cases h

/-- The header of a checked design is never refused. -/
theorem Netlist.unrefused_registerHeader (n : Netlist) : Unrefused n.registerHeader :=
  .bind (.mapM (fun e : RegisterEntry => (Word.unrefused_product e.extents).bind fun _ => .ok _) _)
    fun _ => .ok _

namespace Backend

variable {n : Netlist} {b : Backend}

theorem fst_run : (b.run n).1 = ((do
    b.check n
    b.emit n : Making String).run.run .empty).1 := rfl

/-- A design that fails its check is not written. -/
theorem fst_run_of_error {failure : Failure} (h : b.check n = .error failure) :
    (b.run n).1 = .error failure := by
  rw [fst_run, run_bind, run_lift, h]

/-- Of a design that passes its check the header is written. -/
theorem fst_run_registerHeader (h : n.registers.validate = .ok ()) :
    (registerHeader.run n).1 = n.registerHeader := by
  have hcheck : registerHeader.check n = .ok () := h
  rw [fst_run, run_bind, run_lift, hcheck]
  rfl

end Backend

namespace FileTree

variable {t t' : FileTree} {path text : String}

/-- A file can be opened to be written. -/
def Opens (t : FileTree) (path : String) : Prop := ∃ t', t.put path "" = .ok t'

/-- Nothing else changes when a text is put into a file. -/
theorem read?_put (h : t.put path text = .ok t') (other : String) :
    t'.read? other = if parts other = parts path then some text else t.read? other := by
  simp only [put] at h
  split at h
  · cases h
  split at h
  · cases h
  split at h
  · cases h
  rcases Except.ok.inj h with rfl
  split
  · next hsame =>
    have hnone : (t.files.filter fun f => parts f.1 ≠ parts path).find?
        (fun f => parts f.1 = parts other) = none := by
      rw [List.find?_eq_none]
      intro f hf
      simpa [hsame] using (List.mem_filter.mp hf).2
    rw [read?, List.find?_append, hnone]
    simp [hsame]
  · next hother =>
    have hlast : [(path, text)].find? (fun f => parts f.1 = parts other) = none := by
      simpa using Ne.symm hother
    -- An entry of another path is kept by the filter.
    have hkept : (fun f : String × String =>
        decide (decide (parts f.1 ≠ parts path) = true ∧ decide (parts f.1 = parts other) = true))
          = fun f => decide (parts f.1 = parts other) := by
      funext f
      by_cases hf : parts f.1 = parts other
      · simp [hf, hother]
      · simp [hf]
    rw [read?, List.find?_append, hlast, Option.or_none, List.find?_filter, hkept, read?]

end FileTree

variable {e : Effect} {options : Options} {n : Netlist} {path : String} {error : Error}

/-- What becomes of the files when a design is not written. They have been touched before if the
    text of all modules was to be written and the design had passed its check. -/
theorem writeDesign_of_error (he : e.exitCode = 0) (htarget : options.output = .file path)
    (hfails : (options.backend.run n).1 = .error (.error error)) :
    (writeDesign e options n).exitCode = 1 ∧ (writeDesign e options n).files =
      if options.backend = .sourceText ∧ n.validate = .ok () then
        (e.files.put path "").toOption.getD e.files
      else e.files := by
  have hrun : options.backend.run n = (.error (.error error), (options.backend.run n).2) :=
    Prod.ext hfails rfl
  have hnothing : options.backend ≠ .nothing := by
    intro hbackend
    rw [hbackend] at hfails
    cases hfails
  cases hcheck : options.backend.check n with
  | error failure =>
      have hafter : writeDesign e options n = e.fail failure := by
        simp only [writeDesign, if_neg hnothing, hcheck]
      have huntouched : ¬(options.backend = .sourceText ∧ n.validate = .ok ()) := by
        rintro ⟨hbackend, hvalid⟩
        rw [hbackend, Backend.check, hvalid] at hcheck
        cases hcheck
      rw [Backend.fst_run_of_error hcheck, Except.error.injEq] at hfails
      rw [hafter, hfails, if_neg huntouched]
      exact ⟨rfl, rfl⟩
  | ok _ =>
      cases hbackend : options.backend with
      | sourceText =>
          -- The file is opened before the top module is made, which is refused.
          have hafter : writeDesign e options n = if (e.write (.file path) "").exitCode = 0
              then (e.write (.file path) "").fail (.error error)
              else e.write (.file path) "" := by
            simp only [writeDesign, if_neg hnothing, hcheck]
            rw [hrun, hbackend, htarget]
            simp only [Backend.opensFirst, Effect.canOpen, decide_eq_true_eq, if_true]
          rw [hbackend] at hcheck
          have htouched : Backend.sourceText = .sourceText ∧ n.validate = .ok () := ⟨rfl, hcheck⟩
          rw [if_pos htouched, hafter, Effect.write]
          cases e.files.put path "" with
          | ok emptied =>
              simp only [he, if_true]
              exact ⟨rfl, rfl⟩
          | error detail => exact ⟨rfl, rfl⟩
      | moduleUses =>
          -- The uses are found out first, and the file is never opened.
          have hafter : writeDesign e options n = e.fail (.error error) := by
            simp only [writeDesign, if_neg hnothing, hcheck]
            rw [hrun, hbackend]
            rfl
          rw [hafter, if_neg (by simp)]
          exact ⟨rfl, rfl⟩
      | registerHeader =>
          rw [hbackend] at hcheck hfails
          rw [Backend.fst_run_registerHeader hcheck] at hfails
          exact absurd hfails (n.unrefused_registerHeader error)
      | nothing => exact absurd hbackend hnothing

/-- A run that reports an error instead of writing a design leaves all files but its output alone.
    It leaves the output alone as well, unless that is the text of all modules, the design has
    passed its check and the file can be opened. Then the file is empty in the end. -/
theorem output_kept_iff (he : e.exitCode = 0) (htarget : options.output = .file path)
    (hfails : (options.backend.run n).1 = .error (.error error)) :
    let after := writeDesign e options n
    after.exitCode = 1 ∧
      (∀ other, FileTree.parts other ≠ FileTree.parts path →
        after.files.read? other = e.files.read? other) ∧
      (after.files.read? path = e.files.read? path ↔
        (options.backend = .sourceText → n.validate = .ok () → e.files.Opens path →
          e.files.read? path = some "")) ∧
      (options.backend = .sourceText → n.validate = .ok () → e.files.Opens path →
        after.files.read? path = some "") := by
  intro after
  rcases writeDesign_of_error he htarget hfails with ⟨hcode, hfiles⟩
  refine ⟨hcode, ?_⟩
  -- The file is opened only behind the check, and what opens it empties it.
  by_cases hemptied : (options.backend = .sourceText ∧ n.validate = .ok ()) ∧ e.files.Opens path
  · rcases hemptied with ⟨htouched, emptied, hput⟩
    rw [if_pos htouched, hput] at hfiles
    have hread : ∀ other, after.files.read? other
        = if FileTree.parts other = FileTree.parts path then some "" else e.files.read? other :=
      fun other => (congrArg (FileTree.read? · other) hfiles).trans (FileTree.read?_put hput other)
    have hempty : after.files.read? path = some "" := (hread path).trans (if_pos rfl)
    refine ⟨fun other hother => (hread other).trans (if_neg hother), ?_, fun _ _ _ => hempty⟩
    rw [hempty, eq_comm]
    exact ⟨fun h _ _ _ => h, fun h => h htouched.1 htouched.2 ⟨emptied, hput⟩⟩
  · have hkept : after.files = e.files := by
      refine hfiles.trans ?_
      split
      · next htouched =>
        cases hput : e.files.put path "" with
        | ok emptied => exact absurd ⟨htouched, emptied, hput⟩ hemptied
        | error detail => rfl
      · rfl
    have hclosed : options.backend = .sourceText → n.validate = .ok () → ¬e.files.Opens path :=
      fun hbackend hvalid hopens => hemptied ⟨⟨hbackend, hvalid⟩, hopens⟩
    rw [hkept]
    exact ⟨fun _ _ => rfl, iff_of_true rfl fun h h' h'' => absurd h'' (hclosed h h'),
      fun h h' h'' => absurd h'' (hclosed h h')⟩

/-- A kernel that is accepted and cannot be written: the elements are asked of foreign code. -/
def rooted : Kernel :=
  ⟨"rooted", [.stream "in.stencil.stream" (.uint 8) [1] [2] false,
    .stream "out.stencil.stream" (.uint 8) [1] [2] true],
    .forLoop "x" 0 2 (.realizeOver "out.stencil" (.uint 8) [1] (.block [
      .readStream "in.stencil.stream" "in.stencil" none,
      .provideOne "out.stencil"
        (.call (.uint 8) "isqrt" [.stencil "in.stencil" (.uint 8) [.ofInt 0]] .foreign) [.ofInt 0],
      .writeStream "out.stencil.stream" "out.stencil" []]))⟩

/-- A file in which something has been written before. -/
def written : FileTree := .ofFiles [("out", "kept\n")]

theorem read?_written : written.read? "out" = some "kept\n" := by
  simp [FileTree.read?, written, FileTree.ofFiles]

/-- It can be opened again. -/
theorem opens_written : written.Opens "out" := by
  have hsplit : "out".splitOn "/" = ["out"] := by
    rw [String.splitOn, if_neg (by decide), String.splitOnAux, if_neg (by decide),
      if_neg (by decide), String.splitOnAux, if_neg (by decide), if_neg (by decide),
      String.splitOnAux, if_neg (by decide), if_neg (by decide), String.splitOnAux,
      if_pos (by decide)]
    decide
  have hparts : FileTree.parts "out" = ["out"] := by
    rw [FileTree.parts, hsplit]
    decide
  simp [FileTree.Opens, FileTree.put, FileTree.isDirectory, hparts, written, FileTree.ofFiles]

/-- The options that write a form to that file. -/
def toWritten (b : Backend) : Options := ⟨none, .file "out", b, .warn, false⟩

/-- The uses of its modules are found out before the file is opened. -/
theorem output_kept_iff_rooted : ∃ n, Netlist.ofKernel rooted = .ok n ∧
    let after := writeDesign (.none written) (toWritten .moduleUses) n
    after.exitCode = 1 ∧ after.files.read? "out" = written.read? "out" := by
  have hrefused : (Netlist.ofKernel rooted).map
      (fun n => ((toWritten .moduleUses).backend.run n).1)
        = .ok (.error (.error (.unsupported (.valueCall "isqrt")))) := by
    decide +kernel
  rcases Fallible.exists_of_map hrefused with ⟨n, hn, hfails⟩
  have htarget : (toWritten .moduleUses).output = .file "out" := rfl
  rcases output_kept_iff (e := .none written) rfl htarget hfails with ⟨hcode, _, hkept, _⟩
  exact ⟨n, hn, hcode, hkept.mpr fun htext => absurd htext (by decide)⟩

/-- The text of all modules is begun with an empty file. -/
theorem exists_output_emptied : ∃ n, Netlist.ofKernel rooted = .ok n ∧
    ((toWritten .sourceText).backend.run n).1
      = .error (.error (.unsupported (.valueCall "isqrt"))) ∧
    written.read? "out" = some "kept\n" ∧
    (writeDesign (.none written) (toWritten .sourceText) n).files.read? "out" = some "" := by
  have hrefused : (Netlist.ofKernel rooted).map
      (fun n => (((toWritten .sourceText).backend.run n).1, n.validate))
        = .ok (.error (.error (.unsupported (.valueCall "isqrt"))), .ok ()) := by
    simp only [toWritten, Backend.run, Backend.emit, Netlist.sourceText, Netlist.makeTop_eq]
    decide +kernel
  rcases Fallible.exists_of_map hrefused with ⟨n, hn, hboth⟩
  rcases Prod.mk.inj hboth with ⟨hfails, hvalid⟩
  -- The file could be opened, so it was empty by the time the printing failed.
  rcases opens_written with ⟨emptied, hput⟩
  have htarget : (toWritten .sourceText).output = .file "out" := rfl
  have hfiles := (writeDesign_of_error (e := .none written) rfl htarget hfails).2
  have htouched : (toWritten .sourceText).backend = .sourceText ∧ n.validate = .ok () :=
    ⟨rfl, hvalid⟩
  have hput' : (Effect.none written).files.put "out" "" = .ok emptied := hput
  rw [if_pos htouched, hput'] at hfiles
  refine ⟨n, hn, hfails, read?_written, ?_⟩
  rw [hfiles]
  exact (FileTree.read?_put hput "out").trans (if_pos rfl)

end StencilRtl
