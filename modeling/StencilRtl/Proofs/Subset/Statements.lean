import StencilRtl.Proofs.LoopNest.Conditions
import StencilRtl.Proofs.Subset.Expressions
import StencilRtl.Proofs.Subset.Operands

/-!
# Kernels that Become Hardware

Which constructs a kernel is free of, if a design was made of it and printed.

What is refused is refused in several places. Statements of some kinds are refused when
they are read, operands when a stream operation takes them, and expressions when they are
lowered. An expression that is not lowered is refused nowhere. Those a nest stores or
binds are lowered with its actions, and the conditions that are kept for its write are
lowered with its guard. What is left are conditions that are not kept, because there is a
read in the conditional or no write. So a kernel that gets through is restricted in
every way except for these conditions.

The types of expressions are no part of this. Only a conversion looks at the types on
both of its sides, and every other node of a floating point type is let through.

## Main definitions

* `Stmt.Restricted`: The constructs that are let through, apart from some conditions.
* `Stmt.unheeded`: The conditions nobody looks at.
* `Stmt.Supported`: The constructs that should be let through.
* `Stmt.Handed`: What of a nest is handed to the datapath is plain.

## Theorems

* `Stmt.restricted_iff`: Only the conditions nobody looks at depend on the rule for them.
* `restricted_of_handed`, `restricted_of_nests`: Reading a statement, by induction.
* `supported_iff`: When a kernel that gets through is supported.
-/

namespace StencilRtl

/-- A stream operation on texts and plain operands, or an integer constant. -/
def Expr.IsEvaluable : Expr → Prop
  | .call _ name args _ =>
      name ∈ streamOperations ∧ ∀ e ∈ args, e.text?.isSome = true ∨ e.IsPlain
  | e => e.constant?.isSome = true

/-- Whether a node is an expression of a floating point type. -/
def Node.isFloat : Node → Bool
  | .stmt _ => false
  | .expr e => e.type.isFloat

namespace Stmt

/-- Whether the condition of a conditional is kept for a write in its case. -/
def heeds (thenCase : Stmt) : Bool := !thenCase.containsReadStream && !thenCase.writeSteps.isEmpty

mutual

/-- The constructs that are let through: loops are serial, conditionals have one case, all
    expressions are plain, and stream operations are evaluated. A condition that is not
    kept only has to satisfy `ok`. -/
def Restricted (ok : Expr → Prop) : Stmt → Prop
  | .letIn _ value body => value.IsPlain ∧ body.Restricted ok
  | .producer _ _ body => body.Restricted ok
  | .loop _ min extent kind body =>
      kind = .serial ∧ min.IsPlain ∧ extent.IsPlain ∧ body.Restricted ok
  | .provide _ values args => (∀ e ∈ values, e.IsPlain) ∧ ∀ e ∈ args, e.IsPlain
  | .realize _ _ _ body => body.Restricted ok
  | .block stmts => RestrictedList ok stmts
  | .branch condition thenCase elseCase =>
      elseCase = none ∧ (if thenCase.heeds then condition.IsPlain else ok condition) ∧
        thenCase.Restricted ok
  | .evaluate value => value.IsEvaluable
  | .assert _ _ => False
  | .store _ _ _ => False
  | .allocate _ _ _ _ => False
  | .free _ => False

/-- The constructs that are let through in each of some statements. -/
def RestrictedList (ok : Expr → Prop) : List Stmt → Prop
  | [] => True
  | s :: rest => s.Restricted ok ∧ RestrictedList ok rest

end

mutual

/-- The conditions that are not kept, in reading order. -/
def unheeded : Stmt → List Expr
  | .letIn _ _ body => body.unheeded
  | .producer _ _ body => body.unheeded
  | .loop _ _ _ _ body => body.unheeded
  | .realize _ _ _ body => body.unheeded
  | .allocate _ _ _ body => body.unheeded
  | .block stmts => unheededOfList stmts
  | .branch condition thenCase elseCase =>
      (if thenCase.heeds then [] else [condition]) ++ thenCase.unheeded
        ++ unheededOfOption elseCase
  | .provide _ _ _ => []
  | .evaluate _ => []
  | .assert _ _ => []
  | .store _ _ _ => []
  | .free _ => []

/-- The conditions that are not kept in some statements. -/
def unheededOfList : List Stmt → List Expr
  | [] => []
  | s :: rest => s.unheeded ++ unheededOfList rest

/-- The conditions that are not kept in an optional statement. -/
def unheededOfOption : Option Stmt → List Expr
  | none => []
  | some s => s.unheeded

end

mutual

/-- The rule for conditions that are not kept is about nothing else. -/
theorem restricted_iff (ok : Expr → Prop) : ∀ s : Stmt,
    s.Restricted ok ↔ s.Restricted (fun _ => True) ∧ ∀ e ∈ s.unheeded, ok e
  | .letIn _ _ body => by simp only [Restricted, unheeded, restricted_iff ok body, and_assoc]
  | .producer _ _ body => by simp only [Restricted, unheeded, restricted_iff ok body]
  | .loop _ _ _ _ body => by simp only [Restricted, unheeded, restricted_iff ok body, and_assoc]
  | .realize _ _ _ body => by simp only [Restricted, unheeded, restricted_iff ok body]
  | .block stmts => by simp only [Restricted, unheeded, restrictedList_iff ok stmts]
  | .branch condition thenCase elseCase => by
      simp only [Restricted, unheeded, restricted_iff ok thenCase]
      constructor
      · rintro ⟨rfl, hcondition, hthen, hrest⟩
        split at hcondition
        · next hheeds =>
          exact ⟨⟨rfl, by rwa [if_pos hheeds], hthen⟩, by simp_all [unheededOfOption]⟩
        · next hheeds =>
          exact ⟨⟨rfl, by rw [if_neg hheeds]; trivial, hthen⟩, by simp_all [unheededOfOption]⟩
      · rintro ⟨⟨rfl, hcondition, hthen⟩, hall⟩
        refine ⟨rfl, ?_, hthen, fun e he => hall e (by simp [he])⟩
        split
        · next hheeds => rwa [if_pos hheeds] at hcondition
        · next hheeds => exact hall condition (by simp [hheeds])
  | .provide _ _ _ => by simp [Restricted, unheeded]
  | .evaluate _ => by simp [Restricted, unheeded]
  | .assert _ _ => by simp [Restricted]
  | .store _ _ _ => by simp [Restricted]
  | .allocate _ _ _ _ => by simp [Restricted]
  | .free _ => by simp [Restricted]

theorem restrictedList_iff (ok : Expr → Prop) : ∀ ss : List Stmt,
    RestrictedList ok ss ↔ RestrictedList (fun _ => True) ss ∧ ∀ e ∈ unheededOfList ss, ok e
  | [] => by simp [RestrictedList, unheededOfList]
  | s :: rest => by
      rw [RestrictedList, RestrictedList, unheededOfList, List.forall_mem_append,
        restricted_iff ok s, restrictedList_iff ok rest, and_and_and_comm]

end

/-- The constructs that should be let through: expressions are plain everywhere, and none
    has a floating point type. -/
def Supported (s : Stmt) : Prop :=
  s.Restricted Expr.IsPlain ∧ ∀ x ∈ s.nodes, x.isFloat = false

/-- What of a nest is handed to the datapath is plain: its actions and the conditions that
    are kept for its writes. -/
structure Handed (s : Stmt) : Prop where
  actions : ∀ a ∈ s.actions, ∀ e ∈ a.exprs, e.IsPlain
  guards : ∀ w ∈ s.writeSteps, ∀ g ∈ w.guards, g.IsPlain

namespace Handed

/-- What is inside a statement is handed with it. -/
theorem mono {s t : Stmt} (h : s.Handed) (hnodes : ∀ x ∈ t.nodes, x ∈ s.nodes)
    (hwrites : ∀ w ∈ t.writeSteps, ∃ w' ∈ s.writeSteps, ∀ g ∈ w.guards, g ∈ w'.guards) :
    t.Handed := by
  constructor
  case actions =>
    intro a ha
    rcases List.mem_flatMap.mp ha with ⟨x, hx, ha⟩
    exact h.actions a (List.mem_flatMap.mpr ⟨x, hnodes x hx, ha⟩)
  case guards =>
    intro w hw g hg
    rcases hwrites w hw with ⟨w', hw', hsub⟩
    exact h.guards w' hw' g (hsub g hg)

/-- A statement with the writes of the one inside it. -/
theorem body {s t : Stmt} (h : s.Handed) (hnodes : ∀ x ∈ t.nodes, x ∈ s.nodes)
    (hsteps : s.steps = t.steps) : t.Handed := by
  refine h.mono hnodes fun w hw => ⟨w, ?_, fun _ hg => hg⟩
  rwa [writeSteps, hsteps]

theorem mem {s : Stmt} {stmts : List Stmt} (h : (block stmts).Handed) (hs : s ∈ stmts) :
    s.Handed := by
  refine h.mono (fun x hx => List.mem_cons_of_mem _ ?_) fun w hw => ⟨w, ?_, fun _ hg => hg⟩
  · clear h
    induction stmts with
    | nil => exact absurd hs List.not_mem_nil
    | cons t rest ih =>
        rcases List.mem_cons.mp hs with rfl | hs
        · exact List.mem_append_left _ hx
        · exact List.mem_append_right _ (ih hs)
  · rw [writeSteps_block]
    exact List.mem_flatMap.mpr ⟨s, hs, hw⟩

theorem thenCase {condition : Expr} {t : Stmt} (h : (branch condition t none).Handed) :
    t.Handed := by
  refine h.mono (by simp +contextual [nodes])
    fun w hw => ⟨w.under ⟨condition, t⟩, ?_, fun g hg => ?_⟩
  · rw [writeSteps_branch]
    exact List.mem_map_of_mem hw
  · cases hread : t.containsReadStream with
    | true => rwa [Step.guards_under_of_read hread]
    | false => rw [Step.guards_under hread]; exact List.mem_cons_of_mem _ hg

/-- A condition that is kept is handed. -/
theorem condition {condition : Expr} {t : Stmt} (h : (branch condition t none).Handed)
    (hheeds : t.heeds = true) : condition.IsPlain := by
  rw [heeds, Bool.and_eq_true, Bool.not_eq_true', Bool.not_eq_true', List.isEmpty_eq_false_iff]
    at hheeds
  rcases List.exists_mem_of_ne_nil _ hheeds.2 with ⟨w, hw⟩
  refine h.guards (w.under ⟨condition, t⟩) ?_ condition ?_
  · rw [writeSteps_branch]
    exact List.mem_map_of_mem hw
  · rw [Step.guards_under hheeds.1]
    exact List.mem_cons_self

end Handed

end Stmt

namespace LoopNest

/-- Conditions are plain if their conjunction is. -/
theorem isPlain_of_conjunction {es : List Expr}
    (h : ∀ g, conjunction es = some g → g.IsPlain) : ∀ e ∈ es, e.IsPlain := by
  cases es with
  | nil => exact List.forall_mem_nil _
  | cons first rest =>
      have hall := h _ rfl
      clear h
      induction rest generalizing first with
      | nil => exact List.forall_mem_singleton.mpr hall
      | cons e rest ih =>
          rcases List.forall_mem_cons.mp (ih _ hall) with ⟨hfirst, hrest⟩
          rcases Expr.isPlain_binary.mp hfirst with ⟨hfirst, he⟩
          exact List.forall_mem_cons.mpr ⟨hfirst, List.forall_mem_cons.mpr ⟨he, hrest⟩⟩

/-- The bounds of a loop that is entered are constants. -/
theorem isPlain_of_enterLoop {n n' : LoopNest} {name : String} {min extent : Expr} {body : Stmt}
    (h : n.enterLoop name min extent body = .ok n') : min.IsPlain ∧ extent.IsPlain := by
  rcases (grows_enterLoop h).2 .serial with ⟨⟨_, hmin, _⟩, _, hextent, _⟩
  exact ⟨Expr.isPlain_of_constant (Option.isSome_of_eq_some hmin),
    Expr.isPlain_of_constant (Option.isSome_of_eq_some hextent)⟩

end LoopNest

namespace Construction

/-- An evaluated expression that is read is a stream operation or a constant. -/
theorem isEvaluable_of_evaluate {e : Expr} {c c' : Construction} {u : Unit}
    (h : evaluate e c = .ok (u, c')) : e.IsEvaluable := by
  unfold evaluate at h
  split at h
  · rcases operation_operands h with ⟨hname, hargs⟩
    refine ⟨hname, fun e he => ?_⟩
    rcases hargs e he with hvar | htext | hconstant
    · exact .inr (Expr.isPlain_of_var hvar)
    · exact .inl htext
    · exact .inr (Expr.isPlain_of_constant hconstant)
  next hcall =>
  split at h
  · next hconstant => cases e <;> first | exact hconstant | exact absurd rfl (hcall _ _ _ _)
  · exact absurd (lift_ok.mp h).1 (by simp [unsupported])

/-- A loop that is read has constant bounds, and its body has been read. -/
theorem body_of_loop {name : String} {min extent : Expr} {body : Stmt} {inner : Constructing Unit}
    {c c' : Construction} {u : Unit} (h : loop name min extent body inner c = .ok (u, c')) :
    (min.IsPlain ∧ extent.IsPlain) ∧ ∃ d u d', inner d = .ok (u, d') := by
  rcases loop_ok h with ⟨_, _, _, henter, hbody⟩ | ⟨_, _, _, _, _, henter, hbody, _⟩
  · exact ⟨LoopNest.isPlain_of_enterLoop henter, _, _, _, hbody⟩
  · exact ⟨LoopNest.isPlain_of_enterLoop henter, _, _, _, hbody⟩

/-- A conditional that is read is inside a nest and has one case, which has been read. -/
theorem case_of_branch {condition : Expr} {thenCase : Stmt} {hasElse : Bool}
    {inner : Constructing Unit} {c c' : Construction} {u : Unit}
    (h : branch condition thenCase hasElse inner c = .ok (u, c')) :
    c.nest ≠ none ∧ hasElse = false ∧ ∃ d u d', inner d = .ok (u, d') := by
  rcases branch_ok h with ⟨⟨n, hn⟩, helse, hcase⟩
  refine ⟨by rw [hn]; simp, helse, ?_⟩
  rcases hcase with ⟨_, hbody⟩ | ⟨_, _, hbody, _⟩
  · exact ⟨_, _, _, hbody⟩
  · exact ⟨_, _, _, hbody⟩

/-- The body of a producer is read in the same nest. -/
theorem body_of_inProducer {name : String} {body : Constructing Unit} {c c' : Construction}
    {u : Unit} (h : inProducer name body c = .ok (u, c')) :
    ∃ d u d', d.nest = c.nest ∧ body d = .ok (u, d') := by
  rcases inProducer_ok h with ⟨producer, d, hbody, _⟩
  exact ⟨{ c with producer }, (), d, rfl, hbody⟩

mutual

/-- A statement that is read, and whose parts that are handed on are plain, is restricted. -/
theorem restricted_of_handed : ∀ (s : Stmt) (c : Construction) (u : Unit) (c' : Construction),
    statement s c = .ok (u, c') → s.Handed → s.Restricted fun _ => True
  | .producer name isProducer body, c, u, c', h, hs => by
      rcases body_of_inProducer h with ⟨d, v, d', _, hbody⟩
      exact restricted_of_handed body d v d' hbody (hs.body (fun _ => List.mem_cons_of_mem _) rfl)
  | .block stmts, c, u, c', h, hs =>
      restrictedList_of_handed stmts c u c' h fun _ => hs.mem
  | .loop name min extent kind body, c, u, c', h, hs => by
      unfold statement at h
      split at h
      · exact absurd (lift_ok.mp h).1 (by simp [unsupported])
      · next hkind =>
        rcases body_of_loop h with ⟨⟨hmin, hextent⟩, d, v, d', hbody⟩
        have hin : body.Handed := hs.body (by simp +contextual [Stmt.nodes]) rfl
        exact ⟨not_not.mp hkind, hmin, hextent, restricted_of_handed body d v d' hbody hin⟩
  | .realize name types bounds body, c, u, c', h, hs => by
      rcases bind_ok.mp h with ⟨_, d, _, hbody⟩
      exact restricted_of_handed body d u c' hbody (hs.body (fun _ => List.mem_cons_of_mem _) rfl)
  | .provide name values args, c, u, c', h, hs => by
      rcases updateNest_ok h with ⟨before, nest, _, hprovide, _⟩
      rcases LoopNest.provide_ok hprovide with ⟨_, value, rfl, _⟩
      have hall := hs.actions (.provide (printName name) args value)
        (by simp [Stmt.actions, Stmt.nodes, Stmt.exprsNodes, Node.actions])
      rcases List.forall_mem_cons.mp hall with ⟨hvalue, hargs⟩
      exact ⟨List.forall_mem_singleton.mpr hvalue, hargs⟩
  | .letIn name value body, c, u, c', h, hs => by
      rcases bind_ok.mp h with ⟨_, d, _, hbody⟩
      have hvalue := hs.actions (.letIn (printName name) value)
        (by simp [Stmt.actions, Stmt.nodes, Node.actions])
      have hin : body.Handed := hs.body (by simp +contextual [Stmt.nodes]) rfl
      exact ⟨List.forall_mem_singleton.mp hvalue, restricted_of_handed body d u c' hbody hin⟩
  | .branch condition thenCase elseCase, c, u, c', h, hs => by
      rcases case_of_branch h with ⟨_, hnone, d, v, d', hthen⟩
      have hcase : elseCase = none :=
        Option.isNone_iff_eq_none.mp (Option.isSome_eq_false_iff.mp hnone)
      subst hcase
      refine ⟨rfl, ?_, restricted_of_handed thenCase d v d' hthen hs.thenCase⟩
      split
      · next hheeds => exact hs.condition hheeds
      · trivial
  | .evaluate value, c, u, c', h, hs => isEvaluable_of_evaluate h
  | .assert _ _, c, u, c', h, _ => absurd (lift_ok.mp h).1 (by simp [unsupported])
  | .store _ _ _, c, u, c', h, _ => absurd (lift_ok.mp h).1 (by simp [unsupported])
  | .allocate _ _ _ _, c, u, c', h, _ => absurd (lift_ok.mp h).1 (by simp [unsupported])
  | .free _, c, u, c', h, _ => absurd (lift_ok.mp h).1 (by simp [unsupported])

theorem restrictedList_of_handed : ∀ (ss : List Stmt) (c : Construction) (u : Unit)
    (c' : Construction), statements ss c = .ok (u, c') → (∀ s ∈ ss, s.Handed) →
    Stmt.RestrictedList (fun _ => True) ss
  | [], _, _, _, _, _ => trivial
  | s :: rest, c, u, c', h, hs => by
      rcases bind_ok.mp h with ⟨v, d, hfirst, hrest⟩
      rcases List.forall_mem_cons.mp hs with ⟨hs, hss⟩
      exact ⟨restricted_of_handed s c v d hfirst hs, restrictedList_of_handed rest d u c' hrest hss⟩

end

mutual

/-- A statement that is read outside of a nest hands on what its nests do. -/
theorem restricted_of_nests : ∀ (s : Stmt) (c : Construction) (u : Unit) (c' : Construction),
    statement s c = .ok (u, c') → c.nest = none → (∀ nest ∈ s.nests, nest.Handed) →
    s.Restricted fun _ => True
  | .producer name isProducer body, c, u, c', h, hc, hs => by
      rcases body_of_inProducer h with ⟨d, v, d', hd, hbody⟩
      exact restricted_of_nests body d v d' hbody (hd.trans hc) hs
  | .block stmts, c, u, c', h, hc, hs => restrictedList_of_nests stmts c u c' h hc hs
  | .loop name min extent kind body, c, u, c', h, _, hs =>
      restricted_of_handed _ c u c' h (hs _ (List.mem_singleton_self _))
  | .realize name types bounds body, c, u, c', h, hc, hs => by
      rcases bind_ok.mp h with ⟨_, d, hrealize, hbody⟩
      exact restricted_of_nests body d u c' hbody ((realize_guards hrealize).outside hc).1 hs
  | .provide name values args, c, u, c', h, hc, _ => by
      rcases updateNest_ok h with ⟨before, _, hbefore, _⟩
      exact absurd (hbefore.symm.trans hc) (by simp)
  | .letIn name value body, c, u, c', h, hc, _ => by
      rcases bind_ok.mp h with ⟨_, d, hupdate, _⟩
      rcases updateNest_ok hupdate with ⟨before, _, hbefore, _⟩
      exact absurd (hbefore.symm.trans hc) (by simp)
  | .branch condition thenCase elseCase, c, u, c', h, hc, _ => absurd hc (case_of_branch h).1
  | .evaluate value, c, u, c', h, _, _ => isEvaluable_of_evaluate h
  | .assert _ _, c, u, c', h, _, _ => absurd (lift_ok.mp h).1 (by simp [unsupported])
  | .store _ _ _, c, u, c', h, _, _ => absurd (lift_ok.mp h).1 (by simp [unsupported])
  | .allocate _ _ _ _, c, u, c', h, _, _ => absurd (lift_ok.mp h).1 (by simp [unsupported])
  | .free _, c, u, c', h, _, _ => absurd (lift_ok.mp h).1 (by simp [unsupported])

theorem restrictedList_of_nests : ∀ (ss : List Stmt) (c : Construction) (u : Unit)
    (c' : Construction), statements ss c = .ok (u, c') → c.nest = none →
    (∀ nest ∈ Stmt.nestsOfList ss, nest.Handed) → Stmt.RestrictedList (fun _ => True) ss
  | [], _, _, _, _, _, _ => trivial
  | s :: rest, c, u, c', h, hc, hs => by
      rcases bind_ok.mp h with ⟨v, d, hfirst, hrest⟩
      rcases List.forall_mem_append.mp hs with ⟨hs, hss⟩
      have hd := ((statement_guards s c v d hfirst).outside hc).1
      exact ⟨restricted_of_nests s c v d hfirst hc hs,
        restrictedList_of_nests rest d u c' hrest hd hss⟩

end

end Construction

namespace Netlist

/-- A kernel whose design has plain stages is restricted. -/
theorem restricted_of_ofKernel {k : Kernel} {n : Netlist} (h : ofKernel k = .ok n)
    (hplain : ∀ plan ∈ n.stagePlans, plan.IsPlain) : k.body.Restricted fun _ => True := by
  have hboth := forall₂_and (forall₂_translates h) (forall₂_writesUnder h)
  rcases body_of_ofKernel h with ⟨d, _, c, hopen, _, hbody, _⟩
  refine Construction.restricted_of_nests k.body d _ c hbody hopen ?_
  intro nest hnest
  rcases exists_of_forall₂ hboth hnest with ⟨plan, hplan, htranslates, w, hw, hguard⟩
  refine ⟨htranslates.actions ▸ (hplain plan hplan).actions, ?_⟩
  rw [hw]
  refine List.forall_mem_singleton.mpr (LoopNest.isPlain_of_conjunction fun g hg => ?_)
  exact (hplain plan hplan).guard g (hguard.trans hg)

end Netlist

/-- A kernel whose design is printed has only constructs that are let through, apart from
    its conditions that are not kept. It is supported just if these are plain and nothing
    in it has a floating point type. -/
theorem supported_iff (k : Kernel) (n : Netlist) (text : String) (warnings : List Warning)
    (hk : Netlist.ofKernel k = .ok n) (h : Backend.sourceText.run n = (.ok text, warnings)) :
    k.body.Restricted (fun _ => True) ∧
      (k.body.Supported ↔
        (∀ e ∈ k.body.unheeded, e.IsPlain) ∧ ∀ x ∈ k.body.nodes, x.isFloat = false) := by
  rcases Netlist.prints_of_run h with ⟨top, w, htop, _⟩
  have hplain := Netlist.isPlain_of_makeTop (Netlist.uniform_of_ofKernel hk) htop
  have hrestricted := Netlist.restricted_of_ofKernel hk hplain
  refine ⟨hrestricted, ?_⟩
  rw [Stmt.Supported, Stmt.restricted_iff]
  exact and_congr_left' (and_iff_right hrestricted)

theorem supported_iff_secondOnly : ∃ n text warnings, Netlist.ofKernel secondOnly = .ok n ∧
    Backend.sourceText.run n = (.ok text, warnings) ∧ secondOnly.body.Supported := by
  have hprinted : (Netlist.ofKernel secondOnly).map
      (fun n => (Backend.sourceText.run n).1.toBool) = .ok true := by
    simp only [Backend.run, Backend.emit, Netlist.sourceText, Netlist.makeTop_eq]
    decide +kernel
  rcases Fallible.exists_of_map hprinted with ⟨n, hn, hbool⟩
  rcases Fallible.exists_ok hbool with ⟨text, htext⟩
  have hrun : Backend.sourceText.run n = (.ok text, (Backend.sourceText.run n).2) :=
    Prod.ext htext rfl
  refine ⟨n, text, _, hn, hrun, (supported_iff secondOnly n text _ hn hrun).2.mpr ?_⟩
  decide +kernel

/-- Reads under a condition, and stores and writes at every position. -/
def readUnder (condition : Expr) : Kernel :=
  pairKernel [.ifThen condition (.readStream "in.stencil.stream" "in.stencil" none),
    .provideOne "out.stencil" (.stencil "in.stencil" (.uint 8) [.ofInt 0]) [.ofInt 0],
    .writeStream "out.stencil.stream" "out.stencil" []]

/-- The number one half, as a constant of 32 bits. -/
def oneHalf : Expr := .floatImm ⟨.float, 32⟩ ⟨0x3fe0000000000000⟩

/-- A floating point constant gets through as the condition of a read. -/
theorem printed_readUnder_oneHalf : ∃ n text warnings,
    Netlist.ofKernel (readUnder oneHalf) = .ok n ∧
      Backend.sourceText.run n = (.ok text, warnings) ∧ ¬(readUnder oneHalf).body.Supported := by
  have hprinted : (Netlist.ofKernel (readUnder oneHalf)).map
      (fun n => (Backend.sourceText.run n).1.toBool) = .ok true := by
    simp only [Backend.run, Backend.emit, Netlist.sourceText, Netlist.makeTop_eq]
    decide +kernel
  rcases Fallible.exists_of_map hprinted with ⟨n, hn, hbool⟩
  rcases Fallible.exists_ok hbool with ⟨text, htext⟩
  refine ⟨n, text, _, hn, Prod.ext htext rfl, fun hsupported => ?_⟩
  have hall := ((Stmt.restricted_iff Expr.IsPlain _).mp hsupported.1).2
  exact absurd (hall oneHalf (by decide +kernel)) (by decide +kernel)

end StencilRtl
