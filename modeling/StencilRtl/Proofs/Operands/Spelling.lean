import Mathlib.Algebra.Group.Int.Defs
import Mathlib.Algebra.Group.Nat.Defs
import StencilRtl.Kernel.StreamCall
import StencilRtl.Proofs.Fallible

/-!
# Spelled Operands

What a reading of operands accepts, and what it says when operands are missing or left over.

A reading is described by a relation: which operands *spell* which result. Reading an item
that is spelled takes exactly its operands and leaves the others alone, so relations are put
together as readings are. The other half of the description is what happens to a list that
ends too early. Every reading looks at the operands one at a time, so the first place behind
the end is the one reported, wherever in a group it lies. Both halves survive putting
readings together, and neither does without the other: to know where the second reading
starts, the first has to be known to return.

A whole call has to use up its operands. So its reading is described by the operands of the
call alone, and what is left over is reported with its number.

## Main definitions

* `Operands.Decodes`: A reading takes exactly the operands that spell its result.
* `Operands.Accepts`: A reading returns if all operands together spell its result.
* `Operands.Closes`: The same, and too few or too many operands are reported as such.
* `Operands.DecodesCall`: What a reading that closes makes of the operands of a call.
* `Expr.Names`, `Expr.Counts`: Single operands.

## Theorems

* `Operands.Decodes.bind`, `Operands.Decodes.times`: Readings one after the other.
* `Operands.Closes.bind`, `Operands.closes_finish`: Readings up to the last operand.
* `Operands.accepts_toEnd`: Items until no operand is left.
* `Operands.decodes_buffer`, `Operands.decodes_text`, `Operands.decodes_atLeast`: Single
  operands.
-/

namespace StencilRtl

namespace Expr

/-- A variable called `name`, of whatever type. -/
def Names (e : Expr) (name : String) : Prop := ∃ type, e = .var type name

/-- A constant that is no negative number and fits a signed word. -/
def Counts (e : Expr) (n : Nat) : Prop :=
  (∃ type value, e = .intImm type value ∧ value.toInt = n)
    ∨ ∃ type value, e = .uintImm type value ∧ value.toNat = n ∧ n < 2 ^ 63

theorem var?_iff {e : Expr} {name : String} : e.var? = some name ↔ e.Names name := by
  cases e <;> simp [var?, Names]

theorem text?_iff {e : Expr} {value : String} : e.text? = some value ↔ e = .textImm value := by
  cases e <;> simp [text?]

theorem constant?_iff {e : Expr} {n : Nat} : e.constant? = some (n : Int) ↔ e.Counts n := by
  have hsize : UInt64.size = 2 ^ 64 := rfl
  unfold Counts
  cases e with
  | intImm type value => simp [constant?]
  -- An unsigned word is a constant just if it fits a signed one.
  | uintImm type value =>
      simp only [constant?]
      constructor
      · intro h
        split at h
        · next hlt =>
          have hn := Option.some.inj h
          exact .inr ⟨type, value, rfl, by omega, by omega⟩
        · exact absurd h (by simp)
      · rintro (⟨_, _, he, _⟩ | ⟨_, _, he, hvalue, hn⟩)
        · exact absurd he (by simp)
        · obtain ⟨rfl, rfl⟩ := Expr.uintImm.inj he
          rw [if_pos (by omega), hvalue]
  | _ => simp [constant?]

/-- Constants are signed words. -/
theorem lt_of_constant? {e : Expr} {value : Int} (h : e.constant? = some value) :
    value < 2 ^ 63 := by
  unfold constant? at h
  split at h
  · rw [← Option.some.inj h]
    exact Int64.toInt_lt _
  · split at h
    · next hlt =>
      rw [← Option.some.inj h]
      have hsize : UInt64.size = 2 ^ 64 := rfl
      omega
    · exact absurd h (by simp)
  · exact absurd h (by simp)

theorem Counts.lt {e : Expr} {n : Nat} (h : e.Counts n) : n < 2 ^ 63 := by
  have hlt := lt_of_constant? (constant?_iff.mpr h)
  omega

end Expr

namespace Operands

variable {α β : Type}

/-- What is left behind `taken`. -/
def past (o : Operands) (taken rest : List Expr) : Operands :=
  ⟨o.call, o.position + taken.length, rest⟩

/-- The report that an operand is missing right behind the end. -/
def missing (o : Operands) : Failure :=
  .error (.unsupported (.malformedCall o.call (.missing (o.position + o.rest.length))))

/-- The report that operands are left over. -/
def leftOver (o : Operands) (more : List Expr) : Failure :=
  .error (.unsupported (.malformedCall o.call (.trailing more.length)))

@[simp] theorem past_rest (o : Operands) (taken rest : List Expr) :
    (o.past taken rest).rest = rest := rfl

theorem past_past (o : Operands) (s t rest rest' : List Expr) :
    (o.past s rest').past t rest = o.past (s ++ t) rest := by
  simp [past, Nat.add_assoc]

theorem past_nil (o : Operands) : o.past [] o.rest = o := rfl

/-- Behind some of the operands the same place is missing. -/
theorem missing_past {o : Operands} {taken rest : List Expr} (h : o.rest = taken ++ rest) :
    (o.past taken rest).missing = o.missing := by
  simp [missing, past, h, Nat.add_assoc]

/-- `item` takes exactly the operands that spell its result. If they end too early, the first
    one behind the end is reported as missing. -/
structure Decodes (item : Reading α) (Spells : List Expr → α → Prop) : Prop where
  returns : ∀ o taken rest a, Spells taken a → o.rest = taken ++ rest →
    item o = .ok (a, o.past taken rest)
  spelled : ∀ o a o', item o = .ok (a, o') → ∃ taken, Spells taken a ∧ o.rest = taken ++ o'.rest
  lacks : ∀ o more a, Spells (o.rest ++ more) a → more ≠ [] → item o = .error o.missing

/-- `item` returns just if all operands together spell its result. -/
def Accepts (item : Reading α) (Spells : List Expr → α → Prop) : Prop :=
  ∀ o a, (∃ o', item o = .ok (a, o')) ↔ Spells o.rest a

/-- `item` accepts what is spelled and reports operands that are missing or left over. -/
structure Closes (item : Reading α) (Spells : List Expr → α → Prop) : Prop where
  accepts : Accepts item Spells
  lacks : ∀ o more a, Spells (o.rest ++ more) a → more ≠ [] → item o = .error o.missing
  trails : ∀ o taken more a, Spells taken a → o.rest = taken ++ more → more ≠ [] →
    item o = .error (o.leftOver more)

/-- Operands that spell one thing, and behind them operands that spell the next. -/
def Followed (S : List Expr → α → Prop) (T : α → List Expr → β → Prop) :
    List Expr → β → Prop :=
  fun operands b => ∃ a s t, S s a ∧ T a t b ∧ operands = s ++ t

section

variable {m : Reading α} {f : α → Reading β} {S : List Expr → α → Prop}
  {T : α → List Expr → β → Prop}

theorem bind_eq {o o' : Operands} {a : α} (h : m o = .ok (a, o')) : (m >>= f) o = f a o' := by
  have hrun : (m >>= f) o = m o >>= fun r => f r.1 r.2 := rfl
  rw [hrun, h]
  rfl

theorem bind_error {o : Operands} {e : Failure} (h : m o = .error e) :
    (m >>= f) o = .error e := by
  have hrun : (m >>= f) o = m o >>= fun r => f r.1 r.2 := rfl
  rw [hrun, h]
  rfl

/-- Operands that end too early end in the first part or in the second. -/
theorem lacks_bind (hm : Decodes m S)
    (hf : ∀ a o more b, T a (o.rest ++ more) b → more ≠ [] → f a o = .error o.missing)
    {o : Operands} {more : List Expr} {b : β} (h : Followed S T (o.rest ++ more) b)
    (hmore : more ≠ []) : (m >>= f) o = .error o.missing := by
  rcases h with ⟨a, s, t, hs, ht, heq⟩
  rcases List.append_eq_append_iff.mp heq with ⟨k, hk, hmore'⟩ | ⟨k, hk, hmore'⟩
  · by_cases hnil : k = []
    -- The end lies between the two parts, so the second part finds nothing at all.
    · rw [hnil, List.append_nil] at hk
      rw [hnil, List.nil_append] at hmore'
      have hrest : o.rest = s ++ [] := by rw [List.append_nil, hk]
      rw [bind_eq (hm.returns o s [] a hs hrest),
        hf a _ more b (by rwa [past_rest, List.nil_append, hmore']) hmore, missing_past hrest]
    · exact bind_error (hm.lacks o k a (hk ▸ hs) hnil)
  -- The first part is complete, and the place that is missing is counted from its start.
  · rw [bind_eq (hm.returns o s k a hs hk), hf a _ more b (by rwa [past_rest, ← hmore']) hmore,
      missing_past hk]

theorem Decodes.bind (hm : Decodes m S) (hf : ∀ a, Decodes (f a) (T a)) :
    Decodes (m >>= f) (Followed S T) where
  returns := by
    rintro o _ rest b ⟨a, s, t, hs, ht, rfl⟩ hrest
    rw [List.append_assoc] at hrest
    rw [bind_eq (hm.returns o s _ a hs hrest), (hf a).returns _ t rest b ht rfl, past_past]
  spelled := by
    intro o b o' h
    rcases bind_ok.mp h with ⟨a, o₁, ha, hb⟩
    rcases hm.spelled o a o₁ ha with ⟨s, hs, hrest⟩
    rcases (hf a).spelled o₁ b o' hb with ⟨t, ht, hrest'⟩
    exact ⟨s ++ t, ⟨a, s, t, hs, ht, rfl⟩, by rw [hrest, hrest', List.append_assoc]⟩
  lacks := fun _ _ _ h hmore => lacks_bind hm (fun a => (hf a).lacks) h hmore

theorem Accepts.bind (hm : Decodes m S) (hf : ∀ a, Accepts (f a) (T a)) :
    Accepts (m >>= f) (Followed S T) := by
  intro o b
  constructor
  · rintro ⟨o', h⟩
    rcases bind_ok.mp h with ⟨a, o₁, ha, hb⟩
    rcases hm.spelled o a o₁ ha with ⟨s, hs, hrest⟩
    exact ⟨a, s, o₁.rest, hs, (hf a o₁ b).mp ⟨o', hb⟩, hrest⟩
  · rintro ⟨a, s, t, hs, ht, heq⟩
    rcases (hf a (o.past s t) b).mpr ht with ⟨o', hb⟩
    exact ⟨o', by rw [bind_eq (hm.returns o s t a hs heq), hb]⟩

theorem Closes.bind (hm : Decodes m S) (hf : ∀ a, Closes (f a) (T a)) :
    Closes (m >>= f) (Followed S T) where
  accepts := .bind hm fun a => (hf a).accepts
  lacks := fun _ _ _ h hmore => lacks_bind hm (fun a => (hf a).lacks) h hmore
  trails := by
    rintro o _ more b ⟨a, s, t, hs, ht, rfl⟩ hrest hmore
    rw [List.append_assoc] at hrest
    rw [bind_eq (hm.returns o s _ a hs hrest), (hf a).trails _ t more b ht rfl hmore]
    rfl

/-- What is made of the result does not look at operands. -/
theorem Accepts.then {P : α → β → Prop} (hm : Accepts m S)
    (hf : ∀ a o b, (∃ o', f a o = .ok (b, o')) ↔ P a b) :
    Accepts (m >>= f) fun operands b => ∃ a, S operands a ∧ P a b := by
  intro o b
  constructor
  · rintro ⟨o', h⟩
    rcases bind_ok.mp h with ⟨a, o₁, ha, hb⟩
    exact ⟨a, (hm o a).mp ⟨o₁, ha⟩, (hf a o₁ b).mp ⟨o', hb⟩⟩
  · rintro ⟨a, hs, hp⟩
    rcases (hm o a).mpr hs with ⟨o₁, ha⟩
    rcases (hf a o₁ b).mpr hp with ⟨o', hb⟩
    exact ⟨o', by rw [bind_eq ha, hb]⟩

theorem Accepts.then_pure (hm : Accepts m S) (g : α → β) :
    Accepts (m >>= fun a => pure (g a)) fun operands b => ∃ a, S operands a ∧ b = g a :=
  hm.then fun _ o _ => ⟨fun ⟨_, h⟩ => (pure_ok.mp h).1, fun h => ⟨o, pure_ok.mpr ⟨h, rfl⟩⟩⟩

end

/-- One operand, and behind it operands that spell the next thing. -/
theorem followed_one (Spells : Expr → α → Prop) (T : α → List Expr → β → Prop) :
    Followed (fun s a => ∃ e, s = [e] ∧ Spells e a) T
      = fun operands b => ∃ e a rest, operands = e :: rest ∧ Spells e a ∧ T a rest b := by
  funext operands b
  refine propext ⟨?_, ?_⟩
  · rintro ⟨a, _, rest, ⟨e, rfl, ha⟩, hb, rfl⟩
    exact ⟨e, a, rest, rfl, ha, hb⟩
  · rintro ⟨e, a, rest, rfl, ha, hb⟩
    exact ⟨a, [e], rest, ⟨e, rfl, ha⟩, hb, rfl⟩

/-- Groups of a single operand each. -/
theorem forall₂_singletons {Spells : Expr → α → Prop} {operands : List Expr} {as : List α} :
    (∃ groups, List.Forall₂ (fun s a => ∃ e, s = [e] ∧ Spells e a) groups as
      ∧ operands = groups.flatten) ↔ List.Forall₂ Spells operands as := by
  constructor
  · rintro ⟨groups, hgroups, rfl⟩
    induction hgroups with
    | nil => exact .nil
    | cons hfirst _ ih =>
        rcases hfirst with ⟨e, rfl, ha⟩
        exact .cons ha ih
  · intro h
    induction h with
    | nil => exact ⟨[], .nil, rfl⟩
    | @cons e a _ _ ha _ ih =>
        rcases ih with ⟨groups, hgroups, rfl⟩
        exact ⟨[e] :: groups, .cons ⟨e, rfl, ha⟩ hgroups, rfl⟩

section

variable {item : Reading α} {S S' : List Expr → α → Prop}

theorem Decodes.of_iff (h : Decodes item S) (hiff : ∀ operands a, S' operands a ↔ S operands a) :
    Decodes item S' :=
  (funext₂ fun _ _ => propext (hiff _ _) : S' = S) ▸ h

theorem Accepts.of_iff (h : Accepts item S) (hiff : ∀ operands a, S' operands a ↔ S operands a) :
    Accepts item S' :=
  fun o a => (h o a).trans (hiff o.rest a).symm

theorem Closes.of_iff (h : Closes item S) (hiff : ∀ operands a, S' operands a ↔ S operands a) :
    Closes item S' :=
  (funext₂ fun _ _ => propext (hiff _ _) : S' = S) ▸ h

theorem decodes_pure (a : α) :
    Decodes (pure a) fun operands b => operands = [] ∧ b = a where
  returns := by
    rintro o _ rest _ ⟨rfl, rfl⟩ hrest
    rw [List.nil_append] at hrest
    exact pure_ok.mpr ⟨rfl, by rw [← hrest, past_nil]⟩
  spelled := by
    intro o b o' h
    rcases pure_ok.mp h with ⟨rfl, rfl⟩
    exact ⟨[], ⟨rfl, rfl⟩, rfl⟩
  lacks := fun _ _ _ h hmore => absurd (List.append_eq_nil_iff.mp h.1).2 hmore

/-- A reading that gives way under a condition on what was read before. -/
theorem Closes.unless {c : Prop} [Decidable c] {failing : Reading α}
    (hfails : ∀ o r, failing o ≠ .ok r) (h : Closes item S) :
    Closes (if c then failing else item) fun operands a => ¬ c ∧ S operands a := by
  by_cases hc : c
  · simp only [hc, if_true, not_true_eq_false, false_and]
    exact ⟨fun o a => ⟨fun ⟨_, hok⟩ => hfails o _ hok, False.elim⟩, fun _ _ _ h => h.elim,
      fun _ _ _ _ h => h.elim⟩
  · simpa [hc] using h

/-- The same item a number of times. -/
theorem Decodes.times (h : Decodes item S) (count : Nat) :
    Decodes (Operands.times item count) fun operands as =>
      ∃ groups, List.Forall₂ S groups as ∧ operands = groups.flatten ∧ as.length = count := by
  induction count with
  | zero =>
      refine (decodes_pure []).of_iff fun operands as => ⟨?_, ?_⟩
      · rintro ⟨groups, hgroups, rfl, hlength⟩
        rw [List.length_eq_zero_iff] at hlength
        rw [hlength, List.forall₂_nil_right_iff] at hgroups
        exact ⟨by rw [hgroups, List.flatten_nil], hlength⟩
      · rintro ⟨rfl, rfl⟩
        exact ⟨[], .nil, rfl, rfl⟩
  | succ count ih =>
      refine (h.bind fun first => ih.bind fun rest => decodes_pure (first :: rest)).of_iff
        fun operands as => ⟨?_, ?_⟩
      · rintro ⟨groups, hgroups, rfl, hlength⟩
        -- One item more is one group of operands more, in front of the others.
        cases hgroups with
        | nil => exact absurd hlength (by simp)
        | @cons group first groups rest hfirst hrest =>
            rw [List.length_cons, Nat.add_right_cancel_iff] at hlength
            exact ⟨first, group, _, hfirst, ⟨rest, _, [], ⟨groups, hrest, rfl, hlength⟩,
              ⟨rfl, rfl⟩, (List.append_nil _).symm⟩, rfl⟩
      · rintro ⟨first, group, _, hfirst, ⟨rest, _, _, ⟨groups, hrest, rfl, hlength⟩,
          ⟨rfl, rfl⟩, rfl⟩, rfl⟩
        exact ⟨group :: groups, .cons hfirst hrest, by rw [List.append_nil, List.flatten_cons],
          by rw [List.length_cons, hlength]⟩

/-- At the end a reading returns what it has made of the operands. -/
theorem closes_finish (a : α) :
    Closes (finish >>= fun _ => pure a) fun operands b => operands = [] ∧ b = a where
  accepts := by
    rintro ⟨call, position, rest⟩ b
    cases rest with
    | nil => exact ⟨fun ⟨_, h⟩ => ⟨rfl, (pure_ok.mp h).1⟩, fun h => ⟨_, pure_ok.mpr ⟨h.2, rfl⟩⟩⟩
    | cons e rest =>
        refine ⟨fun ⟨_, h⟩ => ?_, fun h => absurd h.1 (by simp)⟩
        exact absurd h (by rintro ⟨⟩)
  lacks := fun _ _ _ h hmore => absurd (List.append_eq_nil_iff.mp h.1).2 hmore
  trails := by
    rintro ⟨call, position, rest⟩ _ more b ⟨rfl, rfl⟩ hrest hmore
    rw [show rest = more from hrest]
    cases more with
    | nil => exact absurd rfl hmore
    | cons e more => rfl

/-- While something is left the next item is read. -/
theorem untilEmpty_succ (item : Reading α) (most : Nat) (o : Operands) :
    untilEmpty item (most + 1) o = if o.rest.length = 0 then .ok ([], o)
      else (item >>= fun first => untilEmpty item most >>= fun rest => pure (first :: rest)) o := by
  have hrun : untilEmpty item (most + 1) o = (if o.rest.length = 0 then pure []
      else item >>= fun first => untilEmpty item most >>= fun rest => pure (first :: rest)) o := rfl
  rw [hrun]
  split
  · rfl
  · rfl

section

variable (hitem : Decodes item S) (hsome : ∀ a, ¬ S [] a)

include hsome in
theorem length_spelled_pos {group : List Expr} {a : α} (h : S group a) : 0 < group.length :=
  List.length_pos_iff.mpr fun hnil => hsome a (hnil ▸ h)

include hitem hsome

/-- Items are read until no operand is left, if each of them takes at least one. -/
theorem untilEmpty_spelled {groups : List (List Expr)} {as : List α}
    (h : List.Forall₂ S groups as) {most : Nat} {o : Operands} (ho : o.rest = groups.flatten)
    (hmost : o.rest.length ≤ most) : ∃ o', untilEmpty item most o = .ok (as, o') := by
  induction h generalizing most o with
  | nil =>
      cases most with
      | zero => exact ⟨o, rfl⟩
      | succ most => exact ⟨o, by rw [untilEmpty_succ, if_pos (by rw [ho]; rfl)]⟩
  | @cons group first groups rest hfirst hrest ih =>
      rw [List.flatten_cons] at ho
      -- Every item takes an operand, so there are no more items than operands.
      have hpos := length_spelled_pos hsome hfirst
      have hlength := congrArg List.length ho
      rw [List.length_append] at hlength
      obtain ⟨most, rfl⟩ : ∃ n, most = n + 1 := Nat.exists_eq_succ_of_ne_zero (by omega)
      have hleft : (o.past group groups.flatten).rest.length ≤ most := by
        rw [past_rest]
        omega
      rcases ih rfl hleft with ⟨o', hread⟩
      refine ⟨o', ?_⟩
      rw [untilEmpty_succ, if_neg (by omega), bind_eq (hitem.returns o group _ first hfirst ho),
        bind_eq hread]
      rfl

theorem spelled_of_untilEmpty {most : Nat} {o o' : Operands} {as : List α}
    (hmost : o.rest.length ≤ most) (h : untilEmpty item most o = .ok (as, o')) :
    ∃ groups, List.Forall₂ S groups as ∧ o.rest = groups.flatten := by
  induction most generalizing o o' as with
  | zero =>
      rcases pure_ok.mp h with ⟨rfl, rfl⟩
      exact ⟨[], .nil, List.length_eq_zero_iff.mp (by omega)⟩
  | succ most ih =>
      rw [untilEmpty_succ] at h
      split at h
      · next hnone =>
        obtain ⟨rfl, rfl⟩ := Prod.mk.inj (Except.ok.inj h)
        exact ⟨[], .nil, List.length_eq_zero_iff.mp hnone⟩
      · rcases bind_ok.mp h with ⟨first, o₁, hfirst, h⟩
        rcases bind_ok.mp h with ⟨rest, o₂, hrest, h⟩
        rcases pure_ok.mp h with ⟨rfl, rfl⟩
        rcases hitem.spelled _ _ _ hfirst with ⟨group, hgroup, heq⟩
        -- An item takes at least one operand, so the bound still covers what is left.
        have hpos := length_spelled_pos hsome hgroup
        have hlength := congrArg List.length heq
        rw [List.length_append] at hlength
        rcases ih (by omega) hrest with ⟨groups, hgroups, hflat⟩
        exact ⟨group :: groups, .cons hgroup hgroups, by rw [heq, hflat, List.flatten_cons]⟩

/-- Items until no operand is left. -/
theorem accepts_toEnd : Accepts (toEnd item) fun operands as =>
    ∃ groups, List.Forall₂ S groups as ∧ operands = groups.flatten := by
  intro o as
  refine ⟨fun ⟨_, h⟩ => ?_, fun ⟨_, hgroups, ho⟩ => ?_⟩
  · exact spelled_of_untilEmpty hitem hsome (Nat.le_refl _) h
  · exact untilEmpty_spelled hitem hsome hgroups ho (Nat.le_refl _)

end

/-! ### Whole calls -/

/-- A call is read just if its operands spell the result. -/
theorem Accepts.read (h : Accepts item S) {call : String} {args : List Expr} {a : α} :
    Operands.read call item args = .ok a ↔ S args a := by
  rw [← show (ofCall call args).rest = args from rfl, ← h (ofCall call args) a]
  constructor
  · intro hread
    rcases Fallible.bind_ok.mp hread with ⟨⟨_, o'⟩, hrun, hpure⟩
    exact ⟨o', by rw [← Except.ok.inj hpure]; exact hrun⟩
  · rintro ⟨o', hrun⟩
    exact Fallible.bind_ok.mpr ⟨(a, o'), hrun, rfl⟩

theorem read_error {call : String} {args : List Expr} {e : Failure}
    (h : item (ofCall call args) = .error e) : Operands.read call item args = .error e := by
  have hrun : Operands.read call item args = item (ofCall call args) >>= fun r => pure r.1 := rfl
  rw [hrun, h]
  rfl

/-- A call is read just if its operands are spelled, and operands that are missing or left over
    are reported. -/
structure DecodesCall (call : String) (decode : List Expr → Fallible α)
    (Spells : List Expr → α → Prop) : Prop where
  accepts : ∀ args a, decode args = .ok a ↔ Spells args a
  lacks : ∀ short more a, Spells (short ++ more) a → more ≠ [] →
    decode short = unsupported (.malformedCall call (.missing short.length))
  trails : ∀ args more a, Spells args a → more ≠ [] →
    decode (args ++ more) = unsupported (.malformedCall call (.trailing more.length))

theorem Closes.decodesCall (h : Closes item S) (call : String) :
    DecodesCall call (Operands.read call item) S where
  accepts := fun _ _ => h.accepts.read
  lacks := by
    intro short more a hspelled hmore
    rw [read_error (h.lacks (ofCall call short) more a hspelled hmore), missing,
      show (ofCall call short).position = 0 from rfl, Nat.zero_add]
    rfl
  trails := fun args more a hspelled hmore =>
    read_error (h.trails (ofCall call (args ++ more)) args more a hspelled rfl hmore)

/-! ### Single operands -/

/-- A reading that takes one operand and looks at it. -/
theorem decodes_one {Spells : Expr → α → Prop}
    (hnil : ∀ call position, item ⟨call, position, []⟩
      = .error (missing ⟨call, position, []⟩))
    (hcons : ∀ call position e rest r, item ⟨call, position, e :: rest⟩ = .ok r
      ↔ ∃ a, Spells e a ∧ r = (a, ⟨call, position + 1, rest⟩)) :
    Decodes item fun operands a => ∃ e, operands = [e] ∧ Spells e a where
  returns := by
    rintro ⟨call, position, _⟩ _ rest a ⟨e, rfl, ha⟩ rfl
    exact (hcons call position e rest _).mpr ⟨a, ha, rfl⟩
  spelled := by
    rintro ⟨call, position, rest⟩ a o' h
    cases rest with
    | nil => exact absurd h (by rw [hnil]; rintro ⟨⟩)
    | cons e rest =>
        rcases (hcons call position e rest _).mp h with ⟨_, ha, heq⟩
        obtain ⟨rfl, rfl⟩ := Prod.mk.inj heq
        exact ⟨[e], ⟨e, rfl, ha⟩, rfl⟩
  lacks := by
    rintro ⟨call, position, rest⟩ more a ⟨e, heq, _⟩ hmore
    -- What is cut off is not empty, so the one operand is in it and nothing is left.
    rcases List.append_eq_singleton_iff.mp heq with ⟨hrest, _⟩ | ⟨_, hnone⟩
    · rw [show rest = [] from hrest, hnil]
    · exact absurd hnone hmore

/-- The next operand is taken before it is looked at. -/
theorem next_cons (call : String) (position : Nat) (e : Expr) (rest : List Expr) :
    next ⟨call, position, e :: rest⟩ = .ok ((position, e), ⟨call, position + 1, rest⟩) := rfl

theorem decodes_buffer :
    Decodes buffer fun operands name => ∃ e, operands = [e] ∧ e.Names name := by
  refine decodes_one (fun _ _ => rfl) fun call position e rest r => ?_
  rw [buffer, bind_eq (next_cons call position e rest)]
  simp only [← Expr.var?_iff]
  cases e.var? with
  | none => exact ⟨fun h => (by cases h), fun ⟨_, h, _⟩ => (by cases h)⟩
  | some name =>
      refine ⟨fun h => ⟨name, rfl, (Except.ok.inj h).symm⟩, ?_⟩
      rintro ⟨_, ⟨⟩, rfl⟩
      rfl

theorem decodes_text :
    Decodes text fun operands value => ∃ e, operands = [e] ∧ e = .textImm value := by
  refine decodes_one (fun _ _ => rfl) fun call position e rest r => ?_
  rw [text, bind_eq (next_cons call position e rest)]
  simp only [← Expr.text?_iff]
  cases e.text? with
  | none => exact ⟨fun h => (by cases h), fun ⟨_, h, _⟩ => (by cases h)⟩
  | some value =>
      refine ⟨fun h => ⟨value, rfl, (Except.ok.inj h).symm⟩, ?_⟩
      rintro ⟨_, ⟨⟩, rfl⟩
      rfl

theorem decodes_atLeast (least : Nat) :
    Decodes (atLeast least) fun operands n => ∃ e, operands = [e] ∧ e.Counts n ∧ least ≤ n := by
  refine decodes_one (fun _ _ => rfl) fun call position e rest r => ?_
  rw [atLeast, bind_eq (next_cons call position e rest)]
  simp only [← Expr.constant?_iff]
  cases e.constant? with
  | none => exact ⟨fun h => (by cases h), fun ⟨_, ⟨h, _⟩, _⟩ => (by cases h)⟩
  | some value =>
      simp only [Option.some.injEq]
      split
      · next hlt =>
        refine ⟨fun h => (by cases h), ?_⟩
        -- The constant is below the least one, possibly negative.
        rintro ⟨n, ⟨hn, hle⟩, _⟩
        omega
      · next hle =>
        constructor
        · intro h
          exact ⟨value.toNat, ⟨by omega, by omega⟩, (Except.ok.inj h).symm⟩
        · rintro ⟨n, ⟨rfl, _⟩, rfl⟩
          rfl

end

end Operands

end StencilRtl
