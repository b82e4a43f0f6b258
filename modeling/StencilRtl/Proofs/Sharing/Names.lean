import Std.Data.String.ToNat
import StencilRtl.Proofs.Rtl.Atoms
import StencilRtl.Proofs.Sharing.Recipes

/-!
# Names of Modules

What a name tells about the part a module was made for.

Names are words joined by underscores. No word of a name has an underscore in it, but for
the name of a producer, and there is nothing behind that. So words can be read back, and
windows are read from words in the same way. What is left to see is that the words of a part
determine it: the first one tells its kind, the number of words whether there is a window.

Routers and loop controls are numbered in the order in which they are defined, and their
names mean nothing without a library. Two of them that have one name in a library have one
number there, and under a number that is given there is one set of parameters.

## Main definitions

* `Part.head`: The first word of a name.
* `ElemType.word`, `windowWords`: The words that tell an element and a window.

## Theorems

* `eq_of_intercalate`: Words can be read back from what is joined.
* `Library.parameters_eq_of_numberOf`: A number of a library stands for its parameters.
* `Part.eq_of_words`: Words determine a part.
* `Part.eq_of_moduleName`: A name of a library stands for one part of a design.
-/

namespace StencilRtl

section Words

variable {c : Char} {s : String} {xs ys : List String}

/-- Words can be read back if the character between them is in none of them. -/
theorem eq_of_intercalate (hs : s.toList = [c]) (hxs : ∀ w ∈ xs, c ∉ w.toList)
    (hys : ∀ w ∈ ys, c ∉ w.toList) (hx : xs ≠ []) (hy : ys ≠ [])
    (h : s.intercalate xs = s.intercalate ys) : xs = ys := by
  have hsplit : ∀ {ws : List String}, (∀ w ∈ ws, c ∉ w.toList) → ws ≠ [] →
      (s.intercalate ws).toList.splitOn c = ws.map String.toList := by
    intro ws hws hne
    rw [String.toList_intercalate, hs, List.splitOn_intercalate]
    · exact List.forall_mem_map.mpr hws
    · rwa [ne_eq, List.map_eq_nil_iff]
  have hchars : xs.map String.toList = ys.map String.toList := by
    rw [← hsplit hxs hx, h, hsplit hys hy]
  exact List.map_injective_iff.mpr (fun _ _ => String.toList_inj.mp) hchars

/-- A character of joined words is one of a word or stands between words. -/
theorem mem_intercalate {d : Char} (h : d ∈ (s.intercalate xs).toList) :
    d ∈ s.toList ∨ ∃ w ∈ xs, d ∈ w.toList := by
  induction xs with
  | nil => exact absurd h (by simp)
  | cons w rest ih =>
      cases rest with
      | nil =>
          rw [String.intercalate_singleton] at h
          exact .inr ⟨w, List.mem_singleton_self w, h⟩
      | cons v rest =>
          rw [String.intercalate_cons_cons, String.toList_append, String.toList_append,
            List.mem_append, List.mem_append] at h
          rcases h with (h | h) | h
          · exact .inr ⟨w, List.mem_cons_self, h⟩
          · exact .inl h
          · rcases ih h with h | ⟨u, hu, h⟩
            · exact .inl h
            · exact .inr ⟨u, List.mem_cons_of_mem _ hu, h⟩

end Words

namespace Shape

/-- Digits stand in joined numbers, and what joins them. -/
theorem mem_joined {d : Char} {extents : List Nat} (h : d ∈ (joined extents).toList) :
    d = 'x' ∨ d.isDigit = true := by
  rcases mem_intercalate h with h | ⟨w, hw, h⟩
  · exact .inl (List.mem_singleton.mp h)
  · rcases List.mem_map.mp hw with ⟨a, _, rfl⟩
    exact .inr (isDigit_of_mem h)

theorem joined_eq_empty {extents : List Nat} : joined extents = "" ↔ extents = [] := by
  refine ⟨fun h => ?_, fun h => by rw [h]; rfl⟩
  cases extents with
  | nil => rfl
  | cons a rest =>
      have hempty : (toString a).toList = [] := by
        cases rest with
        | nil => exact congrArg String.toList h
        | cons b rest =>
            rw [joined, List.map_cons, List.map_cons, String.intercalate_cons_cons] at h
            have hchars := congrArg String.toList h
            rw [String.toList_append, String.toList_append] at hchars
            exact (List.append_eq_nil_iff.mp (List.append_eq_nil_iff.mp hchars).1).1
      exact absurd (String.toList_inj.mp hempty) Nat.repr_ne_empty

theorem joined_injective {xs ys : List Nat} (h : joined xs = joined ys) : xs = ys := by
  -- Nothing joined and one word that is empty look the same, so lists without numbers are
  -- told first.
  rcases eq_or_ne xs [] with rfl | hx
  · exact (joined_eq_empty.mp h.symm).symm
  rcases eq_or_ne ys [] with rfl | hy
  · exact joined_eq_empty.mp h
  have hdigits : ∀ ws : List Nat, ∀ w ∈ ws.map toString, 'x' ∉ w.toList := by
    intro ws w hw hx
    rcases List.mem_map.mp hw with ⟨a, _, rfl⟩
    exact absurd (isDigit_of_mem hx) (by decide)
  have hwords := eq_of_intercalate rfl (hdigits xs) (hdigits ys) (by simpa) (by simpa) h
  exact List.map_injective_iff.mpr (fun _ _ => Nat.repr_injective) hwords

end Shape

/-- The word that tells an element. -/
def ElemType.word (elem : ElemType) : String :=
  (if elem.signed then "S" else "U") ++ "Int" ++ toString elem.bits

/-- The words that tell a window, if it is one. -/
def windowWords (extents : List Nat) : List String :=
  if extents = [] then [] else [Shape.joined extents]

/-- A word of a name is not split. -/
def Unsplit (w : String) : Prop := '_' ∉ w.toList

theorem unsplit_toString (a : Nat) : Unsplit (toString a) :=
  fun h => absurd (isDigit_of_mem h) (by decide)

theorem unsplit_joined (extents : List Nat) : Unsplit (Shape.joined extents) :=
  fun h => (Shape.mem_joined h).elim (absurd · (by decide)) (absurd · (by decide))

theorem ElemType.unsplit_word (elem : ElemType) : Unsplit elem.word := by
  unfold Unsplit word
  split <;> simp

theorem ElemType.word_injective {e f : ElemType} (h : e.word = f.word) : e = f := by
  rcases e with ⟨bits, signed⟩
  rcases f with ⟨bits', signed'⟩
  cases signed <;> cases signed'
  · exact congrArg uint (Nat.repr_injective ((String.append_right_inj _).mp h))
  · exact absurd (congrArg String.toList h) (by simp [word])
  · exact absurd (congrArg String.toList h) (by simp [word])
  · exact congrArg (ElemType.mk · true) (Nat.repr_injective ((String.append_right_inj _).mp h))

theorem unsplit_of_mem_windowWords {extents : List Nat} :
    ∀ w ∈ windowWords extents, Unsplit w := by
  unfold windowWords
  split
  · exact fun _ h => absurd h List.not_mem_nil
  · exact List.forall_mem_singleton.mpr (unsplit_joined extents)

theorem Shape.typeName_stream (elem : ElemType) (extents : List Nat) :
    (Shape.stream elem extents).typeName
      = "_".intercalate (elem.word :: windowWords extents) := by
  unfold typeName windowWords
  change elem.word ++ (if extents = [] then "" else "_" ++ joined extents) = _
  split
  · rw [String.intercalate_singleton, String.append_empty]
  · rw [String.intercalate_cons_cons, String.intercalate_singleton, String.append_assoc]

/-- Behind the words that tell an element and a window there are as many words in either
    name, so both have a window or none has. -/
theorem eq_of_typeWords {e f : ElemType} {xs ys : List Nat} {us vs : List String}
    (h : e.word :: (windowWords xs ++ us) = f.word :: (windowWords ys ++ vs))
    (hlength : us.length = vs.length) :
    e = f ∧ xs = ys ∧ us = vs := by
  rcases List.cons.inj h with ⟨helem, hrest⟩
  rcases List.append_inj' hrest hlength with ⟨hwindow, hend⟩
  refine ⟨ElemType.word_injective helem, ?_, hend⟩
  unfold windowWords at hwindow
  split at hwindow <;> split at hwindow
  · next hx hy => rw [hx, hy]
  · exact absurd hwindow (by simp)
  · exact absurd hwindow (by simp)
  · exact Shape.joined_injective (List.singleton_inj.mp hwindow)

namespace Library

variable {l : Library} {p q : Parameters}

/-- A number of a family stands for the parameters of its definition, if it has one. -/
theorem parameters_eq_of_numberOf (hfamily : ∀ r : Parameters, r.sameFamily p = r.sameFamily q)
    (hself : q.sameFamily q = true) (hq : ¬ l.Lacks q) (h : l.numberOf p = l.numberOf q) :
    p = q := by
  unfold numberOf at h
  simp only [hfamily] at h
  unfold Lacks at hq
  push Not at hq
  rcases hq with ⟨d, hd, hparams⟩
  have hlt : (l.definitions.filter fun e => e.parameters.sameFamily q).findIdx
      (fun e => e.parameters = q)
        < (l.definitions.filter fun e => e.parameters.sameFamily q).length :=
    List.findIdx_lt_length_of_exists
      ⟨d, List.mem_filter.mpr ⟨hd, hparams ▸ hself⟩, decide_eq_true hparams⟩
  have hfirst := of_decide_eq_true ((List.findIdx_eq hlt).mp h).1
  exact hfirst.symm.trans (of_decide_eq_true ((List.findIdx_eq hlt).mp rfl).1)

end Library

theorem AdapterSide.tag_injective {side side' : AdapterSide} (h : side.tag = side'.tag) :
    side = side' := by
  cases side <;> cases side' <;> first | rfl | exact absurd h (by decide)

namespace Part

/-- The first word of the name of a module. -/
def head : Part → String
  | .slave _ _ => "SlaveIf"
  | .adapter _ _ _ _ => "IO"
  | .queue _ _ _ => "FIFO"
  | .lineBuffer _ _ _ _ => "LineBuffer"
  | .columns _ _ _ _ _ _ => "LineBuffer"
  | .router _ _ _ => "Dispatch"
  | .control _ => "ForControl"
  | .datapath _ => "Compute"
  | .assembly _ _ _ => "WrStream"
  | .stage _ _ => "FB"

/-- The words behind the first one, where none of them is the name of a producer. -/
def words (l : Library) : Part → List String
  | .slave _ _ => []
  | .adapter side elem extents storeExtents =>
      side.tag :: elem.word :: (windowWords extents ++ [Shape.joined storeExtents])
  | .queue elem extents depth => elem.word :: (windowWords extents ++ [toString depth])
  | .lineBuffer elem tile window image =>
      elem.word :: (windowWords tile ++ ["to", Shape.joined window, Shape.joined image])
  | .columns elem tile window image _ _ =>
      elem.word :: (windowWords tile ++ ["to", Shape.joined window, Shape.joined image, "1D"])
  | .router elem extents plan =>
      elem.word :: (windowWords extents
        ++ ["#" ++ toString (l.numberOf (.dispatch elem extents plan))])
  | .control c => ["#" ++ toString (l.numberOf (.loopControl c))]
  | .datapath _ => []
  | .assembly elem extents writes => elem.word :: (windowWords extents ++ [toString writes])
  | .stage _ _ => []

variable {n : Netlist} {l : Library} {κ κ' : Part}

theorem toString_string (s : String) : toString s = s := rfl

/-- What stands before the first underscore of a name tells the kind of a module. -/
theorem takeWhile_moduleName : (κ.moduleName l).toList.takeWhile (· ≠ '_') = κ.head.toList := by
  cases κ <;> simp [moduleName, head, LineBuffer.nameOf, LoopControl.moduleName,
    StagePlan.datapathName, AssemblyPlan.moduleName, StagePlan.moduleName, toString_string]

theorem intercalate_typeWords {elem : ElemType} {extents : List Nat} {ws : List String}
    (hws : ws ≠ []) : "_".intercalate (elem.word :: (windowWords extents ++ ws))
      = (Shape.stream elem extents).typeName ++ "_" ++ "_".intercalate ws := by
  rw [Shape.typeName_stream, ← List.cons_append,
    String.intercalate_append_of_ne_nil (List.cons_ne_nil _ _) hws]

theorem moduleName_eq (h : κ.words l ≠ []) :
    κ.moduleName l = "_".intercalate (κ.head :: κ.words l) := by
  refine String.toList_inj.mp ?_
  cases κ <;> first
    | exact absurd rfl h
    | simp [moduleName, head, words, LineBuffer.nameOf, LoopControl.moduleName,
        AssemblyPlan.moduleName, toString_string, intercalate_typeWords, -String.toList_intercalate]

theorem unsplit_words : ∀ w ∈ κ.words l, Unsplit w := by
  have hnumber : ∀ a : Nat, Unsplit ("#" ++ toString a) := fun a => by simp [Unsplit]
  have hside : ∀ side : AdapterSide, Unsplit side.tag := fun side => by
    cases side <;> simp [Unsplit, AdapterSide.tag]
  have hto : Unsplit "to" := by simp [Unsplit]
  have hone : Unsplit "1D" := by simp [Unsplit]
  cases κ <;> simp only [words, List.mem_cons, List.mem_append, List.not_mem_nil, or_false,
    or_imp, forall_and, forall_eq, IsEmpty.forall_iff, implies_true]
  all_goals
    simp only [hnumber, hside, hto, hone, ElemType.unsplit_word, unsplit_joined, unsplit_toString,
      and_self, true_and, and_true]
    try exact unsplit_of_mem_windowWords

/-- Of parts of one kind the names tell the words. -/
theorem words_eq (h : κ.moduleName l = κ'.moduleName l) (hκ : κ.words l ≠ [])
    (hκ' : κ'.words l ≠ []) : κ.words l = κ'.words l := by
  have hhead : ∀ κ : Part, Unsplit κ.head := fun κ => by
    cases κ <;> simp [Unsplit, head]
  rw [moduleName_eq hκ, moduleName_eq hκ'] at h
  exact (List.cons.inj (eq_of_intercalate rfl (List.forall_mem_cons.mpr ⟨hhead κ, unsplit_words⟩)
    (List.forall_mem_cons.mpr ⟨hhead κ', unsplit_words⟩) (List.cons_ne_nil _ _)
    (List.cons_ne_nil _ _) h)).2

/-- The column stage of a line buffer has another name than any line buffer: no image is
    written as its last word. -/
theorem words_lineBuffer_ne {elem elem' : ElemType} {tile window image tile' window' image' :
    List Nat} {rows : RowStage} {cols : ColumnStage} :
    words l (.lineBuffer elem tile window image)
      ≠ words l (.columns elem' tile' window' image' rows cols) := by
  intro h
  have hlast := congrArg List.getLast? h
  rw [words, words, ← List.cons_append, ← List.cons_append, List.getLast?_append,
    List.getLast?_append] at hlast
  have hone : Shape.joined image = "1D" := by simpa using hlast
  have hmem : 'D' ∈ (Shape.joined image).toList := by simp [hone]
  exact (Shape.mem_joined hmem).elim (absurd · (by decide)) (absurd · (by decide))

/-- The name of a stage is that of its component. -/
theorem eq_of_producer (hn : n.Uniform) {c c' : Component} {p p' : StagePlan}
    (hc : c ∈ n.components) (hkind : c.kind = .stage p) (hc' : c' ∈ n.components)
    (hkind' : c'.kind = .stage p') (h : p.producer = p'.producer) : c = c' ∧ p = p' := by
  have hname := ((hn.standard c hc).of_stage hkind).1
  have hname' := ((hn.standard c' hc').of_stage hkind').1
  have hsame : c = c' := hn.named c hc c' hc' (by
    rw [hname, hname', StagePlan.moduleName, StagePlan.moduleName, h])
  subst hsame
  exact ⟨rfl, ComponentKind.stage.inj (hkind.symm.trans hkind')⟩

/-- The words of a part determine it, if its producer is not among them. -/
theorem eq_of_words (hκ : κ.In n) (hκ' : κ'.In n) (hthere : ¬ l.Lacks κ'.parameters)
    (hhead : κ.head = κ'.head) (hne : κ.words l ≠ []) (hwords : κ.words l = κ'.words l) :
    κ = κ' := by
  cases κ with
  | adapter side elem extents storeExtents =>
      cases κ' with
      | adapter side' elem' extents' storeExtents' =>
          rcases List.cons.inj hwords with ⟨htag, hrest⟩
          rcases eq_of_typeWords hrest rfl with ⟨rfl, rfl, hstore⟩
          rw [AdapterSide.tag_injective htag,
            Shape.joined_injective (List.singleton_inj.mp hstore)]
      | _ => exact absurd hhead (by simp [head])
  | queue elem extents depth =>
      cases κ' with
      | queue elem' extents' depth' =>
          rcases eq_of_typeWords hwords rfl with ⟨rfl, rfl, hdepth⟩
          rw [Nat.repr_injective (List.singleton_inj.mp hdepth)]
      | _ => exact absurd hhead (by simp [head])
  | lineBuffer elem tile window image =>
      cases κ' with
      | lineBuffer elem' tile' window' image' =>
          rcases eq_of_typeWords hwords rfl with ⟨rfl, rfl, hrest⟩
          simp only [List.cons.injEq, true_and, and_true] at hrest
          rw [Shape.joined_injective hrest.1, Shape.joined_injective hrest.2]
      | columns => exact absurd hwords words_lineBuffer_ne
      | _ => exact absurd hhead (by simp [head])
  | columns elem tile window image rows cols =>
      cases κ' with
      | columns elem' tile' window' image' rows' cols' =>
          rcases eq_of_typeWords hwords rfl with ⟨rfl, rfl, hrest⟩
          simp only [List.cons.injEq, true_and, and_true] at hrest
          rcases Shape.joined_injective hrest.1 with rfl
          rcases Shape.joined_injective hrest.2 with rfl
          -- The stages are not in the name. They follow from what is.
          rcases hκ with ⟨plan, hplan, hrows, hcols⟩
          rcases hκ' with ⟨plan', hplan', hrows', hcols'⟩
          rcases Except.ok.inj (hplan.symm.trans hplan') with rfl
          rw [Option.some.inj (Except.ok.inj (hrows.symm.trans hrows')),
            Except.ok.inj (hcols.symm.trans hcols')]
      | lineBuffer => exact absurd hwords.symm words_lineBuffer_ne
      | _ => exact absurd hhead (by simp [head])
  | router elem extents plan =>
      cases κ' with
      | router elem' extents' plan' =>
          rcases eq_of_typeWords hwords rfl with ⟨rfl, rfl, hnumber⟩
          -- The name does not tell the plan, but the number stands for one definition.
          have hsame := Library.parameters_eq_of_numberOf
            (p := .dispatch elem extents plan) (fun r => by cases r <;> rfl) rfl hthere
            (Nat.repr_injective ((String.append_right_inj _).mp (List.singleton_inj.mp hnumber)))
          rw [(Parameters.dispatch.inj hsame).2.2]
      | _ => exact absurd hhead (by simp [head])
  | control c =>
      cases κ' with
      | control c' =>
          have hsame := Library.parameters_eq_of_numberOf
            (p := .loopControl c) (fun r => by cases r <;> rfl) rfl hthere
            (Nat.repr_injective ((String.append_right_inj _).mp (List.singleton_inj.mp hwords)))
          rw [Parameters.loopControl.inj hsame]
      | _ => exact absurd hhead (by simp [head])
  | assembly elem extents writes =>
      cases κ' with
      | assembly elem' extents' writes' =>
          rcases eq_of_typeWords hwords rfl with ⟨rfl, rfl, hwrites⟩
          rw [Nat.repr_injective (List.singleton_inj.mp hwrites)]
      | _ => exact absurd hhead (by simp [head])
  | _ => exact absurd rfl hne

/-- A name of a library stands for one part of a design. -/
theorem eq_of_moduleName (hn : n.Uniform) (hκ : κ.In n) (hκ' : κ'.In n)
    (hthere : ¬ l.Lacks κ'.parameters) (h : κ.moduleName l = κ'.moduleName l) : κ = κ' := by
  -- The first words tell that both are of one kind, except that a line buffer shares its
  -- word with its column stage.
  have hhead : κ.head = κ'.head := by
    refine String.toList_inj.mp ?_
    rw [← takeWhile_moduleName (l := l), h, takeWhile_moduleName]
  cases κ with
  | slave c map =>
      cases κ' with
      | slave c' map' =>
          rcases hκ with ⟨hc, hkind, rfl⟩
          rcases hκ' with ⟨hc', hkind', rfl⟩
          rw [hn.slave c hc c' hc' hkind hkind']
      | _ => exact absurd hhead (by simp [head])
  | datapath p =>
      cases κ' with
      | datapath p' =>
          rcases hκ with ⟨c, hc, hkind⟩
          rcases hκ' with ⟨c', hc', hkind'⟩
          rw [(eq_of_producer hn hc hkind hc' hkind' ((String.append_right_inj _).mp h)).2]
      | _ => exact absurd hhead (by simp [head])
  | stage c p =>
      cases κ' with
      | stage c' p' =>
          have hsame := eq_of_producer hn hκ.1 hκ.2 hκ'.1 hκ'.2 ((String.append_right_inj _).mp h)
          rw [hsame.1, hsame.2]
      | _ => exact absurd hhead (by simp [head])
  | _ =>
      -- No producer is in either name, since both begin with the same word.
      have hne : κ'.words l ≠ [] := by
        cases κ' <;> simp [words] <;> simp [head] at hhead
      exact eq_of_words hκ hκ' hthere hhead (by simp [words])
        (words_eq h (by simp [words]) hne)

end Part

end StencilRtl
