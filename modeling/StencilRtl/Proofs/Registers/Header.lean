import StencilRtl.Proofs.Netlist.Acyclic
import StencilRtl.Proofs.Registers.Arguments
import StencilRtl.Proofs.Registers.Macros
import StencilRtl.Proofs.Registers.Parameters
import StencilRtl.Proofs.Sharing.Printing

/-!
# Register Headers

Which constants the header of a design defines.

A header is read back as a compiler reads it, line by line: what stands between
`#define` and the next blank is a constant. The printed names have neither
blanks nor line breaks in them, so every line that is written is one that is
read. There is a constant for the guard, five for the control and status
registers, and one for each element of a parameter.

Nothing compares the constants before they are written. The map only refuses a
second parameter of the same name, and two names may have one constant, so all
constants are different just if the map is `Unambiguous`.

## Main definitions

* `definedNames`: The constants that a text defines.
* `Netlist.macros`: The constants of a design.

## Theorems

* `textLines_endedLines`: Lines are read back.
* `Netlist.registerHeader_macros`: A header defines the constants of its design.
* `Netlist.registerHeader_defines`: When the constants of a kernel are different.
-/

namespace StencilRtl

/-- The lines of a text. What stands behind the last line break is one as well. -/
def textLines (text : String) : List (List Char) := text.toList.splitOn '\n'

/-- The constant that a line defines. -/
def defined? (line : List Char) : Option String :=
  if "#define ".toList.isPrefixOf line then
    some (String.ofList ((line.drop "#define ".length).takeWhile (· ≠ ' ')))
  else none

/-- The constants that a text defines, in order. -/
def definedNames (text : String) : List String := (textLines text).filterMap defined?

/-- Ended lines are read back, and an empty one behind the last of them. -/
theorem textLines_endedLines {lines : List String} (h : ∀ line ∈ lines, '\n' ∉ line.toList) :
    textLines (endedLines lines) = lines.map String.toList ++ [[]] := by
  have hchars : (endedLines lines).toList
      = ['\n'].intercalate (lines.map String.toList ++ [[]]) := by
    clear h
    induction lines with
    | nil => rfl
    | cons line rest ih =>
        rw [endedLines, List.map_cons, String.join_cons, String.toList_append, ← endedLines, ih]
        cases rest <;> simp [List.intercalate, List.intersperse]
  rw [textLines, hchars, List.splitOn_intercalate _ _ (by simp)]
  rw [List.forall_mem_append, List.forall_mem_map]
  exact ⟨h, by simp⟩

/-- No blank and no line break is in a word. -/
def IsWord (s : String) : Prop := ∀ c ∈ s.toList, c ≠ ' ' ∧ c ≠ '\n'

theorem IsWord.append {s t : String} (hs : IsWord s) (ht : IsWord t) : IsWord (s ++ t) := by
  rw [IsWord, String.toList_append, List.forall_mem_append]
  exact ⟨hs, ht⟩

theorem IsWord.notBreak {s : String} (h : IsWord s) : '\n' ∉ s.toList :=
  fun hmem => (h _ hmem).2 rfl

theorem isWord_of_isAlphanum {s : String} (h : ∀ c ∈ s.toList, c = '_' ∨ c.isAlphanum = true) :
    IsWord s := by
  refine fun c hc => ⟨?_, ?_⟩
  · rintro rfl
    exact absurd (h _ hc) (by decide)
  · rintro rfl
    exact absurd (h _ hc) (by decide)

theorem isWord_macroName (name : String) : IsWord (macroName name) :=
  isWord_of_isAlphanum fun _ hc => isMacroChar_of_mem hc

theorem isWord_printName (name : String) : IsWord (printName name) := by
  refine isWord_of_isAlphanum fun c hc => ?_
  rw [printName, String.toList_ofList, List.mem_map] at hc
  rcases hc with ⟨d, _, rfl⟩
  split
  · next hd => exact .inr hd
  · exact .inl rfl

theorem isWord_toString (i : Nat) : IsWord (toString i) :=
  isWord_of_isAlphanum fun _ hc => .inr (Bool.or_eq_true_iff.mpr (.inr (isDigit_of_mem hc)))

theorem mem_toDigitsCore {base fuel n : Nat} {ds : List Char} {c : Char}
    (h : c ∈ Nat.toDigitsCore base fuel n ds) : c ∈ ds ∨ ∃ d, c = Nat.digitChar d := by
  induction fuel generalizing n ds with
  | zero => exact .inl h
  | succ fuel ih =>
      have hcons : ∀ {d}, c ∈ Nat.digitChar d :: ds → c ∈ ds ∨ ∃ d, c = Nat.digitChar d :=
        fun hmem => (List.mem_cons.mp hmem).symm.imp_right fun heq => ⟨_, heq⟩
      unfold Nat.toDigitsCore at h
      simp only [] at h
      split at h
      · exact hcons h
      · rcases ih h with hmem | hdigit
        · exact hcons hmem
        · exact .inr hdigit

/-- A number is written in digits of its base. -/
theorem exists_digitChar {base n : Nat} {c : Char} (h : c ∈ Nat.toDigits base n) :
    ∃ d, c = Nat.digitChar d :=
  (mem_toDigitsCore h).resolve_left List.not_mem_nil

theorem isWord_headerHex (n : Nat) : IsWord (headerHex n) := by
  refine IsWord.append (by simp [IsWord]) fun c hc => ?_
  rw [paddedHex, String.toList_ofList, List.mem_append] at hc
  rcases hc with hzero | hdigit
  · rw [List.eq_of_mem_replicate hzero]
    decide
  · rcases exists_digitChar hdigit with ⟨d, rfl⟩
    exact ⟨Nat.digitChar_ne _ rfl, Nat.digitChar_ne _ rfl⟩

/-- A line that defines a constant, with or without a value. -/
theorem defined?_define {name rest : String} (hname : IsWord name)
    (hrest : rest.toList.head?.all (· == ' ')) :
    defined? ("#define " ++ name ++ rest).toList = some name := by
  have hword : (name.toList ++ rest.toList).takeWhile (· ≠ ' ') = name.toList := by
    rw [List.takeWhile_append_of_pos fun c hc => by simpa using (hname c hc).1]
    cases hchars : rest.toList with
    | nil => rw [List.takeWhile_nil, List.append_nil]
    | cons c cs =>
        rw [hchars] at hrest
        rw [List.takeWhile_cons_of_neg (by simpa using hrest), List.append_nil]
  have hline : ("#define " ++ name ++ rest).toList
      = "#define ".toList ++ (name.toList ++ rest.toList) := by
    rw [String.toList_append, String.toList_append, List.append_assoc]
  rw [defined?, hline, if_pos (List.isPrefixOf_iff_prefix.mpr (List.prefix_append _ _))]
  have hdrop : ("#define ".toList ++ (name.toList ++ rest.toList)).drop "#define ".length
      = name.toList ++ rest.toList := List.drop_left
  rw [hdrop, hword, String.ofList_toList]

theorem defined?_defineLine {name : String} (hname : IsWord name) (value : String) :
    defined? (defineLine name value).toList = some name := by
  have hline : defineLine name value = "#define " ++ name ++ (" " ++ value) := String.append_assoc
  rw [hline]
  exact defined?_define hname (by rw [String.toList_append]; rfl)

namespace RegisterEntry

/-- What the header says about a parameter that can be counted. -/
def comment (e : RegisterEntry) : String :=
  "/* " ++ (e.name ++ ": " ++ toString e.extents.prod ++ " word(s) of " ++ toString e.elem.bits
    ++ " bit(s) */")

/-- The line of an element. -/
def elementLine (stem : String) (element : Nat × String) : String :=
  defineLine (stem ++ "_" ++ macroName element.2 ++ "_ADDR") (headerHex element.1)

/-- The lines of a parameter that can be counted. -/
def block (stem : String) (e : RegisterEntry) : List String :=
  ["", e.comment] ++ e.elements.map (elementLine stem)

theorem headerLines_eq {stem : String} {e : RegisterEntry} (h : e.words = .ok e.extents.prod) :
    e.headerLines stem = .ok (e.block stem) := by
  rw [headerLines, h]
  rfl

/-- The lines of a parameter define the constants of its elements. -/
theorem filterMap_block {stem : String} (hstem : IsWord stem) (e : RegisterEntry) :
    ((e.block stem).map String.toList).filterMap defined?
      = e.macros.map fun name => stem ++ "_" ++ name ++ "_ADDR" := by
  have hcomment : defined? (e.comment).toList = none := by
    rw [comment, String.toList_append]
    rfl
  have hdefine : ∀ x ∈ e.elements, (defined? ∘ String.toList ∘ elementLine stem) x
      = some (stem ++ "_" ++ macroName x.2 ++ "_ADDR") := fun x _ =>
    defined?_defineLine (((hstem.append (by simp [IsWord])).append (isWord_macroName _)).append
      (by simp [IsWord])) _
  have hheads : (["", e.comment].map String.toList).filterMap defined? = [] := by
    rw [List.map_cons, List.map_singleton, List.filterMap_cons_none rfl,
      List.filterMap_cons_none hcomment, List.filterMap_nil]
  rw [block, List.map_append, List.filterMap_append, hheads, List.nil_append, List.map_map,
    List.filterMap_map, macros, labels, List.map_map, List.map_map]
  rw [List.filterMap_congr hdefine, ← List.filterMap_eq_map]
  rfl

/-- No line of a parameter is broken. -/
theorem notBreak_block {stem : String} (hstem : IsWord stem) {e : RegisterEntry}
    (hname : IsWord e.name) : ∀ line ∈ e.block stem, '\n' ∉ line.toList := by
  have hcomment : '\n' ∉ e.comment.toList := by
    have hwords := (isWord_toString e.extents.prod).notBreak
    have hbits := (isWord_toString e.elem.bits).notBreak
    simp only [comment, String.toList_append, List.mem_append, not_or]
    exact ⟨by decide, ⟨⟨⟨⟨hname.notBreak, by decide⟩, hwords⟩, by decide⟩, hbits⟩, by decide⟩
  have helement : ∀ x, '\n' ∉ (elementLine stem x).toList := by
    intro x
    have hname := (isWord_macroName x.2).notBreak
    have hvalue := (isWord_headerHex x.1).notBreak
    simp only [elementLine, defineLine, String.toList_append, List.mem_append, not_or]
    simp [hstem.notBreak, hname, hvalue]
  rw [block, List.forall_mem_append, List.forall_mem_map]
  exact ⟨by simpa using hcomment, fun x _ => helement x⟩

end RegisterEntry

namespace Netlist

variable {n : Netlist} {k : Kernel}

/-- What the constants of a header have behind the name of the design. -/
def macroEnds (n : Netlist) : List String :=
  ["_REGS_H", "_CTRL_ADDR", "_CTRL_START", "_CTRL_CLEAR_DONE", "_STATUS_ADDR", "_STATUS_RUN"]
    ++ n.registers.macros.map fun name => "_" ++ name ++ "_ADDR"

/-- The constants of a header: the guard, those of the control and status registers, and one
    for each element of a parameter. -/
def macros (n : Netlist) : List String := n.macroEnds.map (macroName n.name ++ ·)

/-- The lines of a header. -/
def headerLines (n : Netlist) : List String :=
  ["#ifndef " ++ (macroName n.name ++ "_REGS_H"), "#define " ++ (macroName n.name ++ "_REGS_H"), ""]
    ++ controlLines (macroName n.name)
    ++ n.registers.entries.flatMap (RegisterEntry.block (macroName n.name)) ++ ["", "#endif"]

theorem registerHeader_eq (h : ∀ e ∈ n.registers.entries, e.words = .ok e.extents.prod) :
    n.registerHeader = .ok (endedLines n.headerLines) := by
  have hblocks : n.registers.entries.mapM (RegisterEntry.headerLines (macroName n.name))
      = .ok (n.registers.entries.map (RegisterEntry.block (macroName n.name))) :=
    Fallible.mapM_of_ok fun e he => RegisterEntry.headerLines_eq (h e he)
  rw [registerHeader]
  simp only [hblocks]
  rw [headerLines, List.flatMap_def]
  rfl

/-- No line of a header is broken. -/
theorem notBreak_headerLines (hnames : ∀ e ∈ n.registers.entries, IsWord e.name) :
    ∀ line ∈ n.headerLines, '\n' ∉ line.toList := by
  have hstem := isWord_macroName n.name
  have hcontrol : ∀ line ∈ controlLines (macroName n.name), '\n' ∉ line.toList := by
    have hctrl := (isWord_headerHex controlAddress).notBreak
    have hstatus := (isWord_headerHex statusAddress).notBreak
    simp [controlLines, defineLine, hstem.notBreak, hctrl, hstatus]
  simp only [headerLines, List.forall_mem_append, List.mem_flatMap]
  refine ⟨⟨⟨by simp [hstem.notBreak], hcontrol⟩, ?_⟩, by simp⟩
  rintro line ⟨e, he, hline⟩
  exact e.notBreak_block hstem (hnames e he) line hline

/-- The lines that guard a header against being read twice define the guard. -/
theorem filterMap_guard {guard : String} (hguard : IsWord guard) :
    (["#ifndef " ++ guard, "#define " ++ guard, ""].map String.toList).filterMap defined?
      = [guard] := by
  have hfirst : defined? ("#ifndef " ++ guard).toList = none := by
    rw [String.toList_append]
    rfl
  have hsecond : defined? ("#define " ++ guard ++ "").toList = some guard :=
    defined?_define hguard rfl
  rw [String.append_empty] at hsecond
  simp only [List.map_cons, List.map_nil, List.filterMap_cons, hfirst, hsecond]
  rfl

/-- The lines of the control and status registers define five constants. -/
theorem filterMap_controlLines {stem : String} (hstem : IsWord stem) :
    ((controlLines stem).map String.toList).filterMap defined?
      = ["_CTRL_ADDR", "_CTRL_START", "_CTRL_CLEAR_DONE", "_STATUS_ADDR", "_STATUS_RUN"].map
          (stem ++ ·) := by
  have hctrl := defined?_defineLine (hstem.append (t := "_CTRL_ADDR") (by simp [IsWord]))
  have hstart := defined?_defineLine (hstem.append (t := "_CTRL_START") (by simp [IsWord]))
  have hclear := defined?_defineLine (hstem.append (t := "_CTRL_CLEAR_DONE") (by simp [IsWord]))
  have hstatus := defined?_defineLine (hstem.append (t := "_STATUS_ADDR") (by simp [IsWord]))
  have hrun := defined?_defineLine (hstem.append (t := "_STATUS_RUN") (by simp [IsWord]))
  simp only [controlLines, List.map_cons, List.map_nil, List.filterMap_cons, List.filterMap_nil,
    hctrl, hstart, hclear, hstatus, hrun]

/-- The header defines these constants, and nothing else. -/
theorem definedNames_headerLines (hnames : ∀ e ∈ n.registers.entries, IsWord e.name) :
    definedNames (endedLines n.headerLines) = n.macros := by
  have hstem := isWord_macroName n.name
  -- The lines of the header in order: its guard, the control registers, the parameters and its end.
  have hguard := filterMap_guard (hstem.append (t := "_REGS_H") (by simp [IsWord]))
  have hcontrol := filterMap_controlLines hstem
  have hblocks : ((n.registers.entries.flatMap (RegisterEntry.block (macroName n.name))).map
      String.toList).filterMap defined?
        = n.registers.macros.map fun name => macroName n.name ++ ("_" ++ name ++ "_ADDR") := by
    rw [RegisterMap.macros, List.map_flatMap, List.map_flatMap, List.filterMap_flatMap]
    refine List.flatMap_congr fun e _ => ?_
    rw [RegisterEntry.filterMap_block hstem]
    simp only [String.append_assoc]
  have hend : (["", "#endif"].map String.toList).filterMap defined? = [] := by decide
  have hrest : [[]].filterMap defined? = [] := rfl
  rw [definedNames, textLines_endedLines (notBreak_headerLines hnames), headerLines]
  simp only [List.map_append, List.filterMap_append, hguard, hcontrol, hblocks, hend, hrest,
    List.append_nil]
  rw [macros, macroEnds, List.map_append, List.map_map]
  rfl

/-- Of the constants every header has, two look like those of elements. -/
theorem element_end_iff {name : String} :
    "_" ++ name ++ "_ADDR" ∈ ["_REGS_H", "_CTRL_ADDR", "_CTRL_START", "_CTRL_CLEAR_DONE",
      "_STATUS_ADDR", "_STATUS_RUN"] ↔ name = "CTRL" ∨ name = "STATUS" := by
  have hsuffix : ∀ {ending : String}, "_" ++ name ++ "_ADDR" = ending →
      "_ADDR".toList <:+ ending.toList := by
    rintro _ rfl
    rw [String.toList_append]
    exact List.suffix_append _ _
  have hcancel : ∀ other : String, "_" ++ name ++ "_ADDR" = "_" ++ other ++ "_ADDR" →
      name = other := fun _ h => by simpa [String.toList_inj] using congrArg String.toList h
  -- Four of the six end in something else, and the others are compared in the middle.
  simp only [List.mem_cons, List.not_mem_nil, or_false]
  constructor
  · rintro (h | h | h | h | h | h)
    · exact absurd (hsuffix h) (by decide)
    · exact .inl (hcancel "CTRL" h)
    · exact absurd (hsuffix h) (by decide)
    · exact absurd (hsuffix h) (by decide)
    · exact .inr (hcancel "STATUS" h)
    · exact absurd (hsuffix h) (by decide)
  · rintro (rfl | rfl) <;> simp

/-- They are different just if no elements are ambiguous. -/
theorem nodup_macros_iff : n.macros.Nodup ↔ n.registers.Unambiguous := by
  have hstem : Function.Injective (macroName n.name ++ ·) := fun a b h => by
    simpa [String.toList_inj] using congrArg String.toList h
  have hends : Function.Injective fun name => "_" ++ name ++ "_ADDR" := fun a b h => by
    simpa [String.toList_inj] using congrArg String.toList h
  have hfixed : ["_REGS_H", "_CTRL_ADDR", "_CTRL_START", "_CTRL_CLEAR_DONE", "_STATUS_ADDR",
      "_STATUS_RUN"].Nodup := by decide
  rw [macros, List.nodup_map_iff hstem, macroEnds, List.nodup_append', List.nodup_map_iff hends,
    RegisterMap.unambiguous_iff, and_iff_right hfixed, List.disjoint_right]
  refine and_congr_right fun _ => ?_
  rw [List.forall_mem_map]
  simp only [element_end_iff, not_or]
  refine ⟨fun h => ⟨fun hctrl => (h _ hctrl).1 rfl, fun hstatus => (h _ hstatus).2 rfl⟩, ?_⟩
  rintro ⟨hctrl, hstatus⟩ name hname
  exact ⟨fun heq => hctrl (heq ▸ hname), fun heq => hstatus (heq ▸ hname)⟩

/-- The header of an accepted kernel is printed, and defines these constants. -/
theorem registerHeader_macros (h : ofKernel k = .ok n) :
    ∃ text, n.registerHeader = .ok text ∧ definedNames text = n.macros := by
  rcases ofKernel_ok h with ⟨_, _, c, _, _, _, _, hvalid⟩
  -- A map that has passed its check has been counted, so the counts of the header cannot fail.
  rcases Fallible.bind_ok.mp hvalid with ⟨_, hregisters, _⟩
  have hends := (RegisterMap.addresses_of_validateFrom hregisters).2.2
  have hnames : ∀ e ∈ n.registers.entries, IsWord e.name := by
    intro e he
    rcases exists_of_forall₂ (registers_of_ofKernel h).flip he with ⟨a, _, shape, _, hname, _⟩
    exact hname ▸ isWord_printName a.name
  refine ⟨_, registerHeader_eq fun e he => ?_, definedNames_headerLines hnames⟩
  rcases hends e he with ⟨past, hpast⟩
  exact (RegisterEntry.past_ok hpast).1

/-- The header of an accepted kernel is printed. It defines the guard, the constants of the control
    and status registers, and one constant for each element of a parameter. All of them are
    different just if the map is unambiguous. -/
theorem registerHeader_defines (h : ofKernel k = .ok n) :
    ∃ text, n.registerHeader = .ok text ∧ definedNames text = n.macros ∧
      (n.macros.Nodup ↔ n.registers.Unambiguous) := by
  rcases registerHeader_macros h with ⟨text, htext, hdefined⟩
  exact ⟨text, htext, hdefined, nodup_macros_iff⟩

/-- A scalar and the elements of a box have constants of their own. -/
theorem registerHeader_defines_weighted : ∃ n text, ofKernel weighted = .ok n ∧
    n.registerHeader = .ok text ∧ (definedNames text).Nodup ∧
      "WEIGHTED_W_STENCIL_2_1_ADDR" ∈ definedNames text := by
  have haccepted : (ofKernel weighted).map (fun n => decide (n.macros.Nodup ∧
      "WEIGHTED_W_STENCIL_2_1_ADDR" ∈ n.macros)) = .ok true := by decide +kernel
  rcases Fallible.exists_of_map haccepted with ⟨n, hn, hmacros⟩
  rcases registerHeader_defines hn with ⟨text, htext, hdefined, _⟩
  exact ⟨n, text, hn, htext, hdefined ▸ of_decide_eq_true hmacros⟩

/-- Scales a stream and adds to it. The two scalars have names that differ in their case. -/
def scaledAndShifted : Kernel :=
  ⟨"affine", [.stream "in.stencil.stream" (.uint 8) [1] [2] false,
    .stream "out.stencil.stream" (.uint 8) [1] [2] true,
    .scalar "gain" (.uint 8), .scalar "Gain" (.uint 8)],
    .forLoop "x" 0 2 (.realizeOver "out.stencil" (.uint 8) [1] (.block [
      .readStream "in.stencil.stream" "in.stencil" none,
      .provideOne "out.stencil"
        (.binary .add (.var (.uint 8) "Gain")
          (.binary .mul (.stencil "in.stencil" (.uint 8) [.ofInt 0]) (.var (.uint 8) "gain")))
        [.ofInt 0],
      .writeStream "out.stencil.stream" "out.stencil" []]))⟩

/-- The header of a kernel that is accepted defines one constant twice. -/
theorem exists_defined_twice : ∃ n text, ofKernel scaledAndShifted = .ok n ∧
    n.registerHeader = .ok text ∧ definedNames text = ["AFFINE_REGS_H", "AFFINE_CTRL_ADDR",
      "AFFINE_CTRL_START", "AFFINE_CTRL_CLEAR_DONE", "AFFINE_STATUS_ADDR", "AFFINE_STATUS_RUN",
      "AFFINE_GAIN_ADDR", "AFFINE_GAIN_ADDR"] ∧ ¬(definedNames text).Nodup := by
  have hmacros : (ofKernel scaledAndShifted).map macros
      = .ok ["AFFINE_REGS_H", "AFFINE_CTRL_ADDR", "AFFINE_CTRL_START", "AFFINE_CTRL_CLEAR_DONE",
        "AFFINE_STATUS_ADDR", "AFFINE_STATUS_RUN", "AFFINE_GAIN_ADDR", "AFFINE_GAIN_ADDR"] := by
    decide +kernel
  rcases Fallible.exists_of_map hmacros with ⟨n, hn, hnames⟩
  rcases registerHeader_macros hn with ⟨text, htext, hdefined⟩
  have hlisted := hdefined.trans hnames
  refine ⟨n, text, hn, htext, hlisted, ?_⟩
  rw [hlisted]
  decide

end Netlist

end StencilRtl
