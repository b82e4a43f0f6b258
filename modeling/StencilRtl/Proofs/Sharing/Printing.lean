import StencilRtl.Emit.Backend
import StencilRtl.Proofs.Netlist.Assembly
import StencilRtl.Proofs.Netlist.KindOrder
import StencilRtl.Proofs.Sharing.Reuse

/-!
# Names of Printed Modules

What a design is printed as, and when the names of its modules differ.

The library asks for every name before anything is defined under it, so its names are
different. The top module is no part of the library. It is printed behind it, under the name
of the kernel, and nothing asks the library for that name. So the names of all printed
modules are different just if the kernel is not called like a module of the library. A name
that begins with another word than theirs never is.

## Main definitions

* `Rtl.Module.PrintedAs`: The text of a module below its comment.
* `Netlist.Prints`: A text that prints some modules of a design.
* `libraryWords`: The words with which the names of a library begin.

## Theorems

* `Library.Grown.nodup_names`: The names of a library are different.
* `Netlist.name_of_ofKernel`: A design is called like its kernel.
* `Netlist.prints_of_sourceText`: The printed modules are those of the library and the top module.
* `Netlist.nodup_printed_iff`: When the names of the printed modules are different.
-/

namespace StencilRtl

/-- The text of a module below a comment, with an empty line behind it. -/
def Rtl.Module.PrintedAs (m : Rtl.Module) (text : String) : Prop :=
  ∃ comment rendered, m.render = .ok rendered ∧ text = commentText comment ++ rendered ++ "\n"

/-- A text that prints some modules one after the other, below what stands before them. -/
def Netlist.Prints (n : Netlist) (text : String) (modules : List Rtl.Module) : Prop :=
  ∃ texts, List.Forall₂ Rtl.Module.PrintedAs modules texts ∧
    text = n.sourceHead ++ String.join texts ++ "`default_nettype wire\n"

/-- The part of a name before its first underscore. -/
def firstWord (name : String) : String := String.ofList (name.toList.takeWhile (· ≠ '_'))

/-- The words with which the names of a library begin. -/
def libraryWords : List String :=
  ["SlaveIf", "IO", "FIFO", "LineBuffer", "Dispatch", "ForControl", "Compute", "WrStream", "FB"]

/-- The modules of a library. -/
def Library.modules (l : Library) : List Rtl.Module := l.definitions.map Definition.content

namespace Library.Grown

variable {n : Netlist} {l : Library}

/-- Nothing is defined under a name that is taken. -/
theorem nodup_names (h : l.Grown n) : l.names.Nodup := by
  induction h with
  | empty => exact List.nodup_nil
  | @add l d κ _ _ hmade ih =>
      have hfree := List.find?_eq_none.mp hmade.free
      rw [names, Library.add, List.map_append, List.map_singleton]
      refine List.nodup_append.mpr ⟨ih, List.pairwise_singleton .., fun x hx y hy => ?_⟩
      rcases List.mem_map.mp hx with ⟨e, he, rfl⟩
      rw [List.mem_singleton.mp hy]
      exact fun hsame => hfree e he (decide_eq_true hsame)

/-- A module is called what it is defined as. -/
theorem map_name_modules (h : l.Grown n) : l.modules.map Rtl.Module.name = l.names := by
  rw [modules, names, List.map_map]
  refine List.map_congr_left fun d hd => ?_
  rcases h.made_of_mem hd with ⟨_, _, _, _, _, hmade⟩
  exact hmade.content

/-- The first word of a name in a library is that of a part. -/
theorem firstWord_mem (h : l.Grown n) {name : String} (hname : name ∈ l.names) :
    firstWord name ∈ libraryWords := by
  rcases List.mem_map.mp hname with ⟨d, hd, rfl⟩
  rcases h.made_of_mem hd with ⟨l₀, κ, _, _, _, hmade⟩
  rw [firstWord, hmade.name, Part.takeWhile_moduleName, String.ofList_toList]
  cases κ <;> simp [Part.head, libraryWords]

end Library.Grown

namespace Netlist

variable {n : Netlist} {k : Kernel}

/-- No step changes the name of a design. -/
theorem named_respected : Construction.Respected fun c c' => c'.netlist.name = c.netlist.name where
  refl _ := rfl
  trans h h' := h'.trans h
  outputs _ _ := rfl
  connect _ _ _ := rfl
  wire h := by
    rcases addWire_ok h with ⟨_, rfl⟩
    rfl
  port h := by
    rcases addPort_ok h with rfl
    rfl
  component _ _ h := by
    rcases addComponent_ok h with ⟨_, rfl⟩
    rfl
  input _ _ := rfl
  output _ _ := rfl
  register _ := rfl

/-- A design is called like its kernel. -/
theorem name_of_ofKernel (h : ofKernel k = .ok n) : n.name = printName k.name := by
  rcases ofKernel_ok h with ⟨bus, slave, c, hbus, hkernel, _, rfl, _⟩
  rcases Construction.addBus_inv hbus with ⟨_, _, _, _, _, rfl⟩
  refine named_respected.kernel (named_respected.followed (fun _ => rfl) (fun _ _ => rfl)
    fun _ _ _ _ hadd => ?_) k _ () c hkernel
  rcases addComponent_ok hadd with ⟨_, rfl⟩
  rfl

/-- The library of a top module consists of parts of the design, and the module is called like
    the design. -/
theorem grown_of_makeTop (hn : n.Uniform) {top : Rtl.Module} {w : Workshop}
    (h : Returns n.makeTop .empty top w) : w.library.Grown n ∧ top.name = n.name := by
  rcases makeTop_ok h with ⟨_, _, _, _, v, _, _, hplaced, hlibrary, _, _, rfl⟩
  rw [hlibrary]
  exact ⟨grown_of_reached hn (reached_of_place .empty hplaced), rfl⟩

/-- What is printed are the modules of the library and then the top module. -/
theorem prints_of_sourceText {text : String} {w' : Workshop}
    (h : Returns n.sourceText .empty text w') :
    ∃ top w, Returns n.makeTop .empty top w ∧ n.Prints text (w.library.modules ++ [top]) := by
  rcases returns_bind.mp h with ⟨top, w, htop, hprint⟩
  rcases returns_bind.mp (returns_get_bind.mp hprint) with ⟨texts, r, htexts, hbehind⟩
  rcases returns_lift_bind.mp hbehind with ⟨last, hlast, hpure⟩
  rcases returns_pure.mp hpure with ⟨rfl, -⟩
  rcases Fallible.bind_ok.mp hlast with ⟨rendered, hrendered, hsame⟩
  -- Definitions are printed in the order in which they were made, each below its own header.
  have hdefinitions : List.Forall₂ Rtl.Module.PrintedAs w.library.modules texts := by
    rw [Library.modules, List.forall₂_map_left_iff]
    refine (returns_mapM htexts).imp fun d t ⟨_, _, ht⟩ => ?_
    rcases Fallible.bind_ok.mp (returns_lift.mp ht).1 with ⟨own, hown, hpure⟩
    exact ⟨d.header, own, hown, (Except.ok.inj hpure).symm⟩
  refine ⟨top, w, htop, texts ++ [commentText [s!"Top module of accelerator `{n.name}'"]
    ++ rendered ++ "\n"], ?_, ?_⟩
  · exact List.rel_append hdefinitions (.cons ⟨_, _, hrendered, rfl⟩ .nil)
  · rw [← Except.ok.inj hsame]
    simp [String.join_append, String.append_assoc]

/-- The backend prints it if the design passes its checks. -/
theorem prints_of_run {text : String} {warnings : List Warning}
    (h : Backend.sourceText.run n = (.ok text, warnings)) :
    ∃ top w, Returns n.makeTop .empty top w ∧ n.Prints text (w.library.modules ++ [top]) := by
  have hrun := returns_of_run (m := (do
    Backend.sourceText.check n
    Backend.sourceText.emit n : Making String)) (congrArg Prod.fst h)
  rcases returns_lift_bind.mp hrun with ⟨_, _, hemit⟩
  exact prints_of_sourceText hemit

/-- The modules of an accepted design that is printed have different names just if the kernel is
    not called like one of the library. -/
theorem nodup_printed_iff {text : String} {warnings : List Warning} (hk : ofKernel k = .ok n)
    (h : Backend.sourceText.run n = (.ok text, warnings)) :
    ∃ modules top, n.Prints text (modules ++ [top]) ∧ top.name = printName k.name ∧
      (modules.map Rtl.Module.name).Nodup ∧
      (((modules ++ [top]).map Rtl.Module.name).Nodup
        ↔ printName k.name ∉ modules.map Rtl.Module.name) ∧
      (firstWord (printName k.name) ∉ libraryWords →
        ((modules ++ [top]).map Rtl.Module.name).Nodup) := by
  rcases prints_of_run h with ⟨top, w, htop, hprints⟩
  rcases grown_of_makeTop (uniform_of_ofKernel hk) htop with ⟨hgrown, hname⟩
  rw [name_of_ofKernel hk] at hname
  have hnames := hgrown.map_name_modules
  have hnodup : (w.library.modules.map Rtl.Module.name).Nodup := hnames ▸ hgrown.nodup_names
  have hiff : ((w.library.modules ++ [top]).map Rtl.Module.name).Nodup
      ↔ printName k.name ∉ w.library.modules.map Rtl.Module.name := by
    rw [List.map_append, List.map_singleton, hname, ← List.concat_eq_append, List.nodup_concat]
    exact and_iff_left hnodup
  refine ⟨_, top, hprints, hname, hnodup, hiff, fun hword => hiff.mpr fun hmem => hword ?_⟩
  exact hgrown.firstWord_mem (hnames ▸ hmem)

/-- The name `inc` begins with none of the words. -/
theorem nodup_printed_iff_increments : ∃ n text warnings modules top,
    ofKernel increments = .ok n ∧ Backend.sourceText.run n = (.ok text, warnings) ∧
      n.Prints text (modules ++ [top]) ∧ ((modules ++ [top]).map Rtl.Module.name).Nodup := by
  have hprinted : (ofKernel increments).map (fun n => (Backend.sourceText.run n).1.toBool)
      = .ok true := by
    simp only [Backend.run, Backend.emit, sourceText, makeTop_eq]
    decide +kernel
  rcases Fallible.exists_of_map hprinted with ⟨n, hn, hbool⟩
  rcases Fallible.exists_ok hbool with ⟨text, htext⟩
  rcases nodup_printed_iff hn (Prod.ext htext rfl) with ⟨modules, top, hprints, _, _, _, hword⟩
  exact ⟨n, text, _, modules, top, hn, Prod.ext htext rfl, hprints, hword (by decide +kernel)⟩

/-- Under the name of the slave interface the top module is printed as a second module of that
    name. -/
theorem exists_printed_twice : ∃ n text warnings modules top,
    ofKernel { increments with name := "SlaveIf" } = .ok n ∧
      Backend.sourceText.run n = (.ok text, warnings) ∧ n.Prints text (modules ++ [top]) ∧
      ¬((modules ++ [top]).map Rtl.Module.name).Nodup := by
  have hprinted : (ofKernel { increments with name := "SlaveIf" }).map (fun n =>
      ((Backend.sourceText.run n).1.toBool,
        decide ("SlaveIf" ∈ (n.makeTop.run.run .empty).2.library.modules.map Rtl.Module.name)))
      = .ok (true, true) := by
    simp only [Backend.run, Backend.emit, sourceText, makeTop_eq]
    decide +kernel
  rcases Fallible.exists_of_map hprinted with ⟨n, hn, hboth⟩
  rcases Prod.mk.inj hboth with ⟨hbool, hmem⟩
  rcases Fallible.exists_ok hbool with ⟨text, htext⟩
  rcases prints_of_run (Prod.ext htext rfl) with ⟨top, w, htop, hprints⟩
  -- The top module is called like the design, and the library has a module of that name already.
  have hname := (grown_of_makeTop (uniform_of_ofKernel hn) htop).2
  have hw : (n.makeTop.run.run .empty).2 = w := congrArg Prod.snd htop
  rw [hw] at hmem
  refine ⟨n, text, _, _, top, hn, Prod.ext htext rfl, hprints, fun hnodup => ?_⟩
  rw [List.map_append, List.map_singleton, hname, name_of_ofKernel hn] at hnodup
  have hprint : printName "SlaveIf" = "SlaveIf" := by decide +kernel
  exact (List.nodup_append.mp hnodup).2.2 _ (of_decide_eq_true hmem) _ (List.mem_singleton_self _)
    hprint.symm

end Netlist

end StencilRtl
