import StencilRtl.Kernel.Builder
import StencilRtl.Proofs.Netlist.Construction

/-!
# Scopes in a Loop Nest

Which names a loop nest takes from outside, and which of them are listed for its
stage.

`freeUses` is the lexical reading: a loop, a buffer and a let bind their names in
their bodies and nowhere else. `freeNames` reads the nest from front to back
instead, and what is bound on the way stays bound to the end. So a name that is
free after the end of its scope is not listed, and neither is one that a loop
uses in its bounds and then binds.

`Picks` compares the two readings without looking at the nest. Whatever is in
scope has been bound on the way, so the free uses are picked from the mentions of
a nest, and a use that is not picked is of a known name. That is all that matters
for the names found in one pass, so there is one induction over the syntax and
one over the mentions.

## Main definitions

* `Expr.freeUses`, `Stmt.freeUses`: The free uses of names, in reading order.
* `firstMention`: The first mention of a name.
* `Picks`: Free uses picked from the mentions of a nest.

## Theorems

* `Stmt.picks_mentions`: The free uses of a statement are picked from its mentions.
* `Picks.unboundUses_eq`: The names found in one pass, from those picked.
* `freeNames_eq`: The free names are those with free uses, but for the names that
  are bound first.
-/

namespace StencilRtl

namespace Expr

mutual

/-- The free uses of names in an expression, in reading order. `scope` holds the names whose
    scope the expression stands in. -/
def freeUses (scope : List String) : Expr → List String
  | .intImm _ _ => []
  | .uintImm _ _ => []
  | .floatImm _ _ => []
  | .textImm _ => []
  | .var _ name => if name ∈ scope then [] else [name]
  | .cast _ value => value.freeUses scope
  | .binary _ a b => a.freeUses scope ++ b.freeUses scope
  | .not a => a.freeUses scope
  | .select condition ifTrue ifFalse =>
      condition.freeUses scope ++ ifTrue.freeUses scope ++ ifFalse.freeUses scope
  | .letIn name value body => value.freeUses scope ++ body.freeUses (name :: scope)
  | .call _ name args callType =>
      if name ∈ streamOperations then []
      else (if callType = .access ∧ name ∉ scope then [name] else [])
        ++ freeUsesOfList scope args
  | .load _ _ index => index.freeUses scope

/-- The free uses of names in some expressions, in reading order. -/
def freeUsesOfList (scope : List String) : List Expr → List String
  | [] => []
  | e :: rest => e.freeUses scope ++ freeUsesOfList scope rest

end

end Expr

namespace Stmt

mutual

/-- The free uses of names in a statement, in reading order. A loop, a buffer and a let bind
    their names in their bodies and nowhere else. -/
def freeUses (scope : List String) : Stmt → List String
  | .letIn name value body => value.freeUses scope ++ body.freeUses (name :: scope)
  | .assert condition message => condition.freeUses scope ++ message.freeUses scope
  | .producer _ _ body => body.freeUses scope
  | .loop name min extent _ body =>
      min.freeUses scope ++ extent.freeUses scope ++ body.freeUses (name :: scope)
  | .provide _ values args => Expr.freeUsesOfList scope values ++ Expr.freeUsesOfList scope args
  | .realize name _ _ body => body.freeUses (name :: scope)
  | .block stmts => freeUsesOfList scope stmts
  | .branch condition thenCase elseCase =>
      condition.freeUses scope ++ thenCase.freeUses scope ++ freeUsesOfOption scope elseCase
  | .evaluate value => value.freeUses scope
  | .store _ value index => value.freeUses scope ++ index.freeUses scope
  | .allocate _ _ extents body => Expr.freeUsesOfList scope extents ++ body.freeUses scope
  | .free _ => []

/-- The free uses of names in some statements, in reading order. -/
def freeUsesOfList (scope : List String) : List Stmt → List String
  | [] => []
  | s :: rest => s.freeUses scope ++ freeUsesOfList scope rest

/-- The free uses of names in an optional statement, in reading order. -/
def freeUsesOfOption (scope : List String) : Option Stmt → List String
  | none => []
  | some s => s.freeUses scope

end

end Stmt

/-- The name bound or used. -/
def Mention.name : Mention → String
  | .binds name => name
  | .uses name => name

/-- The first mention of a name. -/
def firstMention (x : String) (ms : List Mention) : Option Mention :=
  ms.find? fun m => m.name = x

/-- A name that is not known and whose first mention does not bind it. -/
def Unbound (known : List String) (ms : List Mention) (x : String) : Prop :=
  x ∉ known ∧ firstMention x ms ≠ some (.binds x)

instance (known : List String) (ms : List Mention) : DecidablePred (Unbound known ms) :=
  fun x => inferInstanceAs (Decidable (x ∉ known ∧ firstMention x ms ≠ some (.binds x)))

theorem unbound_binds {known : List String} {ms : List Mention} {x y : String} :
    Unbound known (.binds x :: ms) y ↔ Unbound (x :: known) ms y := by
  by_cases h : x = y
  · simp [Unbound, firstMention, Mention.name, h]
  · simp [Unbound, firstMention, Mention.name, h, Ne.symm h]

theorem unbound_cons {known : List String} {ms : List Mention} {x y : String} :
    Unbound (x :: known) ms y ↔ Unbound known (.uses x :: ms) y ∧ y ≠ x := by
  by_cases h : x = y
  · simp [Unbound, h]
  · simp [Unbound, firstMention, Mention.name, h, Ne.symm h]

theorem unbound_uses {known : List String} {ms : List Mention} {x y : String}
    (h : x ∈ known) : Unbound known (.uses x :: ms) y ↔ Unbound known ms y := by
  by_cases hxy : x = y
  · simp [Unbound, ← hxy, h]
  · simp [Unbound, firstMention, Mention.name, hxy]

/-- A use in some mentions is picked as free, or its name is known there: from the scope, or
    since it has been bound on the way, wherever that was. No name of `base` is picked. -/
inductive Picks (base : List String) : List String → List Mention → List String → Prop
  | nil {known : List String} : Picks base known [] []
  | binds {known free : List String} {rest : List Mention} (x : String)
      (h : Picks base (x :: known) rest free) : Picks base known (.binds x :: rest) free
  | free {known free : List String} {rest : List Mention} {x : String} (hx : x ∉ base)
      (h : Picks base known rest free) : Picks base known (.uses x :: rest) (x :: free)
  | bound {known free : List String} {rest : List Mention} {x : String} (hx : x ∈ known)
      (h : Picks base known rest free) : Picks base known (.uses x :: rest) free

namespace Picks

variable {base known known' free free' : List String} {ms ms' : List Mention}

theorem mono (h : Picks base known ms free) (hsub : known ⊆ known') :
    Picks base known' ms free := by
  induction h generalizing known' with
  | nil => exact .nil
  | binds x _ ih => exact .binds x (ih (List.cons_subset_cons x hsub))
  | free hx _ ih => exact .free hx (ih hsub)
  | bound hx _ ih => exact .bound (hsub hx) (ih hsub)

/-- What comes later knows more names. -/
theorem append (h : Picks base known ms free) (h' : Picks base known ms' free') :
    Picks base known (ms ++ ms') (free ++ free') := by
  induction h with
  | nil => exact h'
  | binds x _ ih => exact .binds x (ih (h'.mono (List.subset_cons_self x _)))
  | free hx _ ih => exact .free hx (ih h')
  | bound hx _ ih => exact .bound hx (ih h')

/-- A single use. -/
theorem use {scope : List String} (hbase : base ⊆ scope) (hscope : scope ⊆ known) (x : String) :
    Picks base known [.uses x] (if x ∈ scope then [] else [x]) := by
  split
  · next hx => exact .bound (hscope hx) .nil
  · next hx => exact .free (fun h => hx (hbase h)) .nil

end Picks

namespace Expr

mutual

/-- The free uses of an expression are picked from its mentions. -/
theorem picks_mentions {base scope known : List String} (hbase : base ⊆ scope)
    (hscope : scope ⊆ known) : ∀ e : Expr, Picks base known e.mentions (e.freeUses scope)
  | .intImm _ _ => .nil
  | .uintImm _ _ => .nil
  | .floatImm _ _ => .nil
  | .textImm _ => .nil
  | .var _ name => Picks.use hbase hscope name
  | .cast _ value => picks_mentions hbase hscope value
  | .binary _ a b => (picks_mentions hbase hscope a).append (picks_mentions hbase hscope b)
  | .not a => picks_mentions hbase hscope a
  | .select c a b => ((picks_mentions hbase hscope c).append
      (picks_mentions hbase hscope a)).append (picks_mentions hbase hscope b)
  | .letIn name value body => (picks_mentions hbase hscope value).append (.binds name
      (picks_mentions (List.subset_cons_of_subset name hbase) (List.cons_subset_cons name hscope)
        body))
  | .call type name args callType => by
      simp only [mentions, freeUses]
      split
      · exact .nil
      · refine .append ?_ (picks_mentionsOfList hbase hscope args)
        by_cases haccess : callType = .access
        · simpa [haccess] using Picks.use hbase hscope name
        · simpa [haccess] using .nil
  | .load _ _ index => picks_mentions hbase hscope index

theorem picks_mentionsOfList {base scope known : List String} (hbase : base ⊆ scope)
    (hscope : scope ⊆ known) :
    ∀ es : List Expr, Picks base known (mentionsOfList es) (freeUsesOfList scope es)
  | [] => .nil
  | e :: rest => (picks_mentions hbase hscope e).append (picks_mentionsOfList hbase hscope rest)

end

end Expr

namespace Stmt

mutual

/-- The free uses of a statement are picked from its mentions. -/
theorem picks_mentions {base scope known : List String} (hbase : base ⊆ scope)
    (hscope : scope ⊆ known) : ∀ s : Stmt, Picks base known s.mentions (s.freeUses scope)
  | .letIn name value body => (value.picks_mentions hbase hscope).append (.binds name
      (picks_mentions (List.subset_cons_of_subset name hbase) (List.cons_subset_cons name hscope)
        body))
  | .assert condition message =>
      (condition.picks_mentions hbase hscope).append (message.picks_mentions hbase hscope)
  | .producer _ _ body => picks_mentions hbase hscope body
  -- The bounds are read behind the binding, though they do not stand in its scope.
  | .loop name min extent _ body => .binds name
      (((min.picks_mentions hbase (List.subset_cons_of_subset name hscope)).append
        (extent.picks_mentions hbase (List.subset_cons_of_subset name hscope))).append
        (picks_mentions (List.subset_cons_of_subset name hbase)
          (List.cons_subset_cons name hscope) body))
  | .provide _ values args => (Expr.picks_mentionsOfList hbase hscope values).append
      (Expr.picks_mentionsOfList hbase hscope args)
  | .realize name _ _ body => .binds name
      (picks_mentions (List.subset_cons_of_subset name hbase) (List.cons_subset_cons name hscope)
        body)
  | .block stmts => picks_mentionsOfList hbase hscope stmts
  | .branch condition thenCase elseCase => ((condition.picks_mentions hbase hscope).append
      (picks_mentions hbase hscope thenCase)).append
      (picks_mentionsOfOption hbase hscope elseCase)
  | .evaluate value => value.picks_mentions hbase hscope
  | .store _ value index =>
      (value.picks_mentions hbase hscope).append (index.picks_mentions hbase hscope)
  | .allocate _ _ extents body =>
      (Expr.picks_mentionsOfList hbase hscope extents).append (picks_mentions hbase hscope body)
  | .free _ => .nil

theorem picks_mentionsOfList {base scope known : List String} (hbase : base ⊆ scope)
    (hscope : scope ⊆ known) :
    ∀ ss : List Stmt, Picks base known (mentionsOfList ss) (freeUsesOfList scope ss)
  | [] => .nil
  | s :: rest => (picks_mentions hbase hscope s).append (picks_mentionsOfList hbase hscope rest)

theorem picks_mentionsOfOption {base scope known : List String} (hbase : base ⊆ scope)
    (hscope : scope ⊆ known) :
    ∀ s : Option Stmt, Picks base known (mentionsOfOption s) (freeUsesOfOption scope s)
  | none => .nil
  | some s => picks_mentions hbase hscope s

end

end Stmt

namespace Picks

variable {base known known' free : List String} {ms : List Mention}

theorem not_mem_base (h : Picks base known ms free) {x : String} (hx : x ∈ free) : x ∉ base := by
  induction h with
  | nil => exact absurd hx List.not_mem_nil
  | binds _ _ ih => exact ih hx
  | free hy _ ih =>
    rcases List.mem_cons.mp hx with rfl | hx
    · exact hy
    · exact ih hx
  | bound _ _ ih => exact ih hx

/-- The names found are those picked, but for the names known and the names whose
    first mention binds them. -/
theorem unboundUses_eq (h : Picks base known ms free) (hsub : known ⊆ known') :
    unboundUses known' ms = (free.filter fun x => Unbound known' ms x).eraseDups := by
  induction h generalizing known' with
  | nil => rfl
  | @binds known free rest x h ih =>
    rw [unboundUses, ih (List.cons_subset_cons x hsub)]
    simp only [unbound_binds]
  | @free known free rest x hx h ih =>
    -- A use that is lexically free may be known all the same, if its name was bound before.
    by_cases hknown : x ∈ known'
    · rw [unboundUses, if_pos hknown, ih hsub, List.filter_cons_of_neg (by simp [Unbound, hknown])]
      simp only [unbound_uses hknown]
    · rw [unboundUses, if_neg hknown, ih (List.subset_cons_of_subset x hsub),
        List.filter_cons_of_pos (by simp [Unbound, firstMention, Mention.name, hknown]),
        List.eraseDups_cons, List.filter_filter]
      congr 2
      exact List.filter_congr fun y _ => by grind [unbound_cons]
  | @bound known free rest x hx h ih =>
    rw [unboundUses, if_pos (hsub hx), ih hsub]
    simp only [unbound_uses (hsub hx)]

end Picks

/-- The free names of a loop are the names with a free use, once each and in the order
    of their first free uses, but for those whose first mention binds them. So these are
    the free names just if no name is bound before its free uses. -/
theorem freeNames_eq (var : String) (body : Stmt) :
    freeNames var body = ((body.freeUses [var]).filter fun x =>
        firstMention x body.mentions ≠ some (.binds x)).eraseDups ∧
      (freeNames var body = (body.freeUses [var]).eraseDups ↔
        ∀ x ∈ body.freeUses [var], firstMention x body.mentions ≠ some (.binds x)) := by
  have hpicks : Picks [var] [var] body.mentions (body.freeUses [var]) :=
    body.picks_mentions (List.Subset.refl _) (List.Subset.refl _)
  have heq : freeNames var body = ((body.freeUses [var]).filter fun x =>
      firstMention x body.mentions ≠ some (.binds x)).eraseDups := by
    rw [freeNames, hpicks.unboundUses_eq (List.Subset.refl _)]
    congr 1
    refine List.filter_congr fun x hx => ?_
    simp [Unbound, hpicks.not_mem_base hx]
  refine ⟨heq, fun h x hx => ?_, fun h => ?_⟩
  · rw [← List.mem_eraseDups, ← h, heq, List.mem_eraseDups] at hx
    simpa using (List.mem_filter.mp hx).2
  · rw [heq, List.filter_eq_self.mpr fun x hx => by simpa using h x hx]

/-- Scales the elements of a stream by `gain` and adds one. The one is called `gain`
    as well where it is bound. -/
def scaledBody : Stmt :=
  .realizeOver "out.stencil" (.uint 8) [1] (.block [
    .readStream "in.stencil.stream" "in.stencil" none,
    .provideOne "out.stencil"
      (.binary .add (.letIn "gain" (.ofWord 8 1) (.var (.uint 8) "gain"))
        (.binary .mul (.stencil "in.stencil" (.uint 8) [.ofInt 0]) (.var (.uint 8) "gain")))
      [.ofInt 0],
    .writeStream "out.stencil.stream" "out.stencil" []])

/-- Scales a stream by a gain and adds one, which goes by the name of the gain. -/
def scaled : Kernel :=
  ⟨"scaled", [.stream "in.stencil.stream" (.uint 8) [1] [2] false,
    .stream "out.stencil.stream" (.uint 8) [1] [2] true, .scalar "gain" (.uint 8)],
    .forLoop "x" 0 2 scaledBody⟩

/-- The nest of a kernel that is accepted has a free name which is not listed, and
    which its stage is not given. -/
theorem freeNames_scaled_ne :
    scaledBody.freeUses ["x"] = ["in.stencil", "gain"] ∧
      freeNames "x" scaledBody = ["in.stencil"] ∧
      freeNames "x" scaledBody ≠ (scaledBody.freeUses ["x"]).eraseDups ∧
      (Netlist.ofKernel scaled).toOption.map (fun n => n.stagePlans.map fun plan =>
        plan.params.map Prod.fst) = some [[]] := by
  refine ⟨by decide, by decide, by decide, by decide +kernel⟩

end StencilRtl
