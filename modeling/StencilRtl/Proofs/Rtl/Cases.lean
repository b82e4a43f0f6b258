import StencilRtl.Proofs.Rtl.Logic
import StencilRtl.Proofs.Rtl.Residues

/-!
# Memories in Turn

Processes that choose one of several memories.

A memory is chosen by a case over the number of the memory whose turn it is, with a
branch for each. Labels are plain numbers and have 32 bits, so the branches can only be
told apart while there are no more than `2 ^ 32` of them; of more, the first one whose
label has the same low bits would be run. Reading goes through a list of assignments
that take effect at once, one after the other. None of them assigns to what the others
read, and so each of them has the effect it would have on its own.

## Theorems

* `Stmt.executeCase_find`, `Stmt.executeCase_labels`: The branch with the number of the
  subject is run.
* `Stmt.executeAll_reads`: Signals that are read from memories.
* `Module.Runs.case_read`: A process that reads memories in turn.
* `Module.Runs.case_write`: A process that writes one of them.
-/

namespace StencilRtl

namespace Rtl

variable {Γ : Typing}

/-- A label of 32 bits is the number it was made from. -/
theorem ofInt_signed32 {n : Nat} (hn : n < 2 ^ 32) : ofInt 32 (signed32 n) = n := by
  have hcut : signed32 n = (n : Int).bmod (2 ^ 32) := rfl
  rw [hcut, ofInt_bmod (Nat.le_refl 32), ofInt_of_lt hn]

namespace Stmt

/-- Of labelled branches the first one with the number of the subject is run. -/
theorem executeCase_find {p last : Progress} {subject : String}
    {branches : List (Nat × List Stmt)} (hlabels : ∀ b ∈ branches, b.1 < 2 ^ 32) :
    executeCase Γ p last (.ref subject) (branches.map fun b => (signed32 b.1, b.2))
      = ((branches.find? fun b => b.1 = p.now.value subject).map fun b =>
          executeAll Γ p b.2).getD last := by
  induction branches with
  | nil => rfl
  | cons b rest ih =>
      have hb := hlabels b (List.mem_cons_self ..)
      have hlabel : ∀ context, (Expr.number (signed32 b.1)).value Γ p.now context false = b.1 := by
        intro context
        rw [Expr.value, Expr.extend_false, ofInt_signed32 hb]
      rw [List.map_cons, executeCase, Expr.isSigned, Expr.value, Expr.extend_false, hlabel]
      by_cases h : b.1 = p.now.value subject
      · rw [if_pos h.symm, List.find?_cons_of_pos (by simpa using h), Option.map_some,
          Option.getD_some]
      · rw [if_neg (Ne.symm h), List.find?_cons_of_neg (by simpa using h)]
        exact ih fun b' hb' => hlabels b' (List.mem_cons_of_mem b hb')

/-- With a branch for each of some numbers it is the one of the subject. -/
theorem executeCase_labels {p last : Progress} {subject : String} {bodies : Nat → List Stmt}
    {labels : List Nat} (hlabels : ∀ m ∈ labels, m < 2 ^ 32)
    (hsubject : p.now.value subject ∈ labels) :
    executeCase Γ p last (.ref subject) (labels.map fun m => (signed32 m, bodies m))
      = executeAll Γ p (bodies (p.now.value subject)) := by
  have hmap : (labels.map fun m => (signed32 m, bodies m))
      = (labels.map fun m => (m, bodies m)).map fun b => (signed32 b.1, b.2) := by
    rw [List.map_map]
    rfl
  rw [hmap, executeCase_find fun b hb => by
    rcases List.mem_map.mp hb with ⟨m, hm, rfl⟩
    exact hlabels m hm]
  have hmem : (p.now.value subject, bodies (p.now.value subject))
      ∈ labels.map fun m => (m, bodies m) := List.mem_map_of_mem hsubject
  -- One of the labels is the value of the subject, so a branch is found.
  cases hfound : (labels.map fun m => (m, bodies m)).find? fun b => b.1 = p.now.value subject with
  | none => exact absurd (List.find?_eq_none.mp hfound _ hmem) (by simp)
  | some b =>
      have hlabel := List.find?_some hfound
      rw [decide_eq_true_eq] at hlabel
      rcases List.mem_map.mp (List.mem_of_find?_eq_some hfound) with ⟨m, _, rfl⟩
      rw [Option.map_some, Option.getD_some, ← hlabel]

/-- Signals that are set to cells of memories, all at the same place. -/
theorem executeAll_reads {signal memory : Nat → String} {index : String} {width : Nat}
    (hsignal : ∀ i j, signal i = signal j → i = j) (hindex : ∀ i, signal i ≠ index)
    (hcell : ∀ i, Γ.cellWidth (memory i) = width) {rows : List Nat}
    (hwidth : ∀ i ∈ rows, Γ.width (signal i) = width) (p : Progress) :
    let reads := rows.map fun i => Stmt.set (.ref (signal i)) (.element (memory i) (.ref index))
    (∀ i ∈ rows, (executeAll Γ p reads).now.value (signal i)
      = p.now.cell (memory i) (p.now.value index) % 2 ^ width) ∧
    ∀ i ∉ rows, (executeAll Γ p reads).now.value (signal i) = p.now.value (signal i) := by
  induction rows generalizing p with
  | nil => exact ⟨fun i hi => absurd hi List.not_mem_nil, fun i _ => rfl⟩
  | cons row rest ih =>
      rcases ih (fun i hi => hwidth i (List.mem_cons_of_mem row hi))
        (execute Γ p (.set (.ref (signal row)) (.element (memory row) (.ref index))))
        with ⟨hrest, hother⟩
      have hput : (execute Γ p (.set (.ref (signal row))
          (.element (memory row) (.ref index)))).now
            = p.now.setValue (signal row)
                (p.now.cell (memory row) (p.now.value index) % 2 ^ width) := by
        rw [execute, State.put, hwidth row (List.mem_cons_self ..),
          Expr.assigned_element (hcell row)]
      -- The first assignment leaves the index alone, so the others read at the same place.
      have hplace : (p.now.setValue (signal row)
          (p.now.cell (memory row) (p.now.value index) % 2 ^ width)).value index
            = p.now.value index := Function.update_of_ne (Ne.symm (hindex row)) _ _
      rw [hput] at hrest hother
      rw [hplace] at hrest
      refine ⟨fun i hi => ?_, fun i hi => ?_⟩
      · rw [List.map_cons, executeAll]
        by_cases hmem : i ∈ rest
        · exact hrest i hmem
        · rcases (List.mem_cons.mp hi).resolve_right hmem with rfl
          rw [hother i hmem]
          exact Function.update_self ..
      · rw [List.mem_cons, not_or] at hi
        rw [List.map_cons, executeAll, hother i hi.2]
        exact Function.update_of_ne (fun h => hi.1 (hsignal _ _ h)) _ _

theorem mem_targetsOfCases {name : String} {label : Int} {body : List Stmt}
    {branches : List (Int × List Stmt)} (hbranch : (label, body) ∈ branches)
    (hname : name ∈ targetsOfAll body) : name ∈ targetsOfCases branches := by
  induction branches with
  | nil => exact absurd hbranch List.not_mem_nil
  | cons b rest ih =>
      rcases b with ⟨label', body'⟩
      rw [targetsOfCases, List.mem_append]
      rcases List.mem_cons.mp hbranch with heq | hbranch
      · rcases heq with ⟨⟩
        exact .inl hname
      · exact .inr (ih hbranch)

theorem mem_targetsOfAll {name : String} {stmt : Stmt} {body : List Stmt} (hstmt : stmt ∈ body)
    (hname : name ∈ targets stmt) : name ∈ targetsOfAll body := by
  induction body with
  | nil => exact absurd hstmt List.not_mem_nil
  | cons b rest ih =>
      rw [targetsOfAll, List.mem_append]
      rcases List.mem_cons.mp hstmt with rfl | hstmt
      · exact .inl hname
      · exact .inr (ih hstmt)

end Stmt

namespace Module.Runs

variable {library : String → Option Module} {m : Module} {τ : Nat → State}

/-- Signals that are read from memories in an order that depends on whose turn it is. -/
theorem case_read (h : m.Runs library Γ τ) {subject index : String} {signal : Nat → String}
    {memory : Nat → Nat → String} {count width : Nat} {otherwise : Option (List Stmt)}
    (hitem : .process .combinational [.case (.ref subject)
      ((List.range count).map fun turn => (signed32 turn, (List.range count).map fun i =>
        .set (.ref (signal i)) (.element (memory turn i) (.ref index)))) otherwise] ∈ m.body)
    (hcount : count ≤ 2 ^ 32) (hsignal : ∀ i j, signal i = signal j → i = j)
    (hindex : ∀ i, signal i ≠ index) (hwidth : ∀ i < count, Γ.width (signal i) = width)
    (hcell : ∀ turn i, Γ.cellWidth (memory turn i) = width) (t : Nat)
    (hturn : (τ t).value subject < count) {i : Nat} (hi : i < count) :
    (τ t).value (signal i)
      = (τ t).cell (memory ((τ t).value subject) i) ((τ t).value index) % 2 ^ width := by
  have hmem := List.mem_range.mpr hi
  -- The signal is assigned in the branch of the turn, so the process is what settles it.
  have htarget : signal i ∈ Stmt.targetsOfAll [.case (.ref subject)
      ((List.range count).map fun turn => (signed32 turn, (List.range count).map fun i =>
        .set (.ref (signal i)) (.element (memory turn i) (.ref index)))) otherwise] := by
    refine Stmt.mem_targetsOfAll (List.mem_singleton_self _) ?_
    rw [Stmt.targets, List.mem_append]
    refine .inl (Stmt.mem_targetsOfCases (List.mem_map.mpr ⟨_, List.mem_range.mpr hturn, rfl⟩) ?_)
    refine Stmt.mem_targetsOfAll (List.mem_map.mpr ⟨i, hmem, rfl⟩) ?_
    rw [Stmt.targets, Expr.target?]
    exact List.mem_singleton_self _
  have hsettled := (h.holds t _ hitem (signal i) htarget).1
  rw [Stmt.executeAll, Stmt.executeAll, Stmt.execute, Stmt.executeCase_labels
    (fun turn hturn => Nat.lt_of_lt_of_le (List.mem_range.mp hturn) hcount)
    (List.mem_range.mpr hturn)] at hsettled
  exact hsettled.trans ((Stmt.executeAll_reads hsignal hindex (hcell _)
    (fun i hi => hwidth i (List.mem_range.mp hi)) _).1 i hmem)

/-- One of several memories is written when it is enabled, the one whose turn it is. -/
theorem case_write (h : m.Runs library Γ τ) {enable subject index value : String}
    {memory : Nat → String} {count width depth : Nat}
    (hitem : .process .clocked [.when (.ref enable) [.case (.ref subject)
      ((List.range count).map fun turn =>
        (signed32 turn, [.update (.element (memory turn) (.ref index)) (.ref value)])) none]]
          ∈ m.body)
    (hcount : count ≤ 2 ^ 32) (hmemory : ∀ i j, memory i = memory j → i = j)
    (hcell : ∀ i < count, Γ.cellWidth (memory i) = width)
    (hdepth : ∀ i < count, Γ.depth (memory i) = depth)
    (t : Nat) (henable : (Expr.ref enable).IsBit Γ (τ t) ((τ t).value enable = 1))
    (hturn : (τ t).value subject < count) (hplace : (τ t).value index < depth)
    (hvalue : (τ t).value value < 2 ^ width) {i place : Nat} (hi : i < count)
    (hbelow : place < depth) :
    (τ (t + 1)).cell (memory i) place
      = if (τ t).value enable = 1 ∧ (τ t).value subject = i ∧ (τ t).value index = place then
          (τ t).value value
        else (τ t).cell (memory i) place := by
  -- The memory is a target of the process, in the branch for its own turn.
  have htarget : memory i ∈ Stmt.targetsOfAll [.when (.ref enable) [.case (.ref subject)
      ((List.range count).map fun turn =>
        (signed32 turn, [.update (.element (memory turn) (.ref index)) (.ref value)])) none]] := by
    refine Stmt.mem_targetsOfAll (List.mem_singleton_self _) ?_
    rw [Stmt.when, Stmt.targets, Stmt.targetsOfBranches, List.mem_append, List.mem_append]
    refine .inl (.inl (Stmt.mem_targetsOfAll (List.mem_singleton_self _) ?_))
    rw [Stmt.targets, List.mem_append]
    refine .inl (Stmt.mem_targetsOfCases
      (List.mem_map.mpr ⟨i, List.mem_range.mpr hi, rfl⟩) ?_)
    refine Stmt.mem_targetsOfAll (List.mem_singleton_self _) ?_
    rw [Stmt.targets, Expr.target?]
    exact List.mem_singleton_self _
  have hafter := (h.holds t _ hitem (memory i) htarget).2 place (by rw [hdepth i hi]; exact hbelow)
  rw [Stmt.executeAll, Stmt.executeAll, Stmt.when, Stmt.execute, Stmt.executeFirst,
    Stmt.executeFirst, Stmt.executeElse] at hafter
  by_cases hon : (τ t).value enable = 1
  · rw [if_pos (henable.own_ne_zero.mpr hon), Stmt.executeAll, Stmt.executeAll, Stmt.execute,
      Stmt.executeCase_labels
        (fun turn hturn => Nat.lt_of_lt_of_le (List.mem_range.mp hturn) hcount)
        (List.mem_range.mpr hturn), Stmt.executeAll, Stmt.executeAll, Stmt.execute, State.put,
      Expr.own_ref, hcell _ hturn, Expr.assigned_ref hvalue,
      State.cell_setCell _ (by rw [hdepth _ hturn]; exact hplace)] at hafter
    rw [hafter]
    -- Different turns write different memories.
    have hturns : memory i = memory ((τ t).value subject) ↔ (τ t).value subject = i :=
      ⟨fun hsame => (hmemory _ _ hsame).symm, fun hsame => by rw [hsame]⟩
    exact if_congr (by simp [hon, hturns, eq_comm]) rfl rfl
  · rw [if_neg (mt henable.own_ne_zero.mp hon)] at hafter
    rw [if_neg fun hc => hon hc.1]
    exact hafter

end Module.Runs

end Rtl

end StencilRtl
