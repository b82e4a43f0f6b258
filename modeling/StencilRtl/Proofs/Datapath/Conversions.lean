import StencilRtl.Proofs.Datapath.Lowering

/-!
# Conversions Are Numbered in Turn

Which wires an expression leaves to be declared, and what they mention.

A conversion becomes a wire with the next number, after the value that it converts has been
lowered. So a wire has a larger number than every wire its value mentions, and the wires an
expression leaves are as many as it has conversions. No conversion is lost: coordinates that are
not lowered are constants, and constants are literals.

Names that a kernel has chosen are mentioned as well, and a name may be one that wires have. What
is told here are the names that are mentioned for no other reason.

## Main definitions

* `Rtl.Expr.mentions`: The signals and memories an expression mentions.
* `Rtl.Expr.Below`: They are known, or they are wires with numbers below some number.
* `InTurn`: Wires with the numbers from some number on.
* `Lowering.Numbers`: A computation with so many conversions.

## Theorems

* `Lowering.Numbers.bind`, `Lowering.Numbers.binding`: Computations one after the other, and
  inside of a scope.
* `Scope.numbers_lower`: An expression has one wire for each of its conversions.
-/

namespace StencilRtl

namespace Rtl.Expr

mutual

/-- The signals and memories an expression mentions. -/
def mentions : Expr → List String
  | .ref name => [name]
  | .literal _ _ => []
  | .signedLiteral _ _ => []
  | .number _ => []
  | .not a => a.mentions
  | .isZero a => a.mentions
  | .negate a => a.mentions
  | .binary _ a b => a.mentions ++ b.mentions
  | .all terms => mentionsOfList terms
  | .any terms => mentionsOfList terms
  | .mux condition ifTrue ifFalse => condition.mentions ++ ifTrue.mentions ++ ifFalse.mentions
  | .concat parts => mentionsOfList parts
  | .element memory index => memory :: index.mentions
  | .bitAt base _ => base.mentions
  | .range base _ _ => base.mentions
  | .part base _ _ => base.mentions
  | .field base index _ => base.mentions ++ index.mentions
  | .signed a => a.mentions
  | .unsigned a => a.mentions

/-- The signals and memories that some expressions mention. -/
def mentionsOfList : List Expr → List String
  | [] => []
  | e :: rest => e.mentions ++ mentionsOfList rest

end

/-- The signals an expression mentions are known ones and wires of conversions with numbers
    below some number. -/
def Below (K : String → Prop) (n : Nat) (e : Expr) : Prop :=
  ∀ name ∈ e.mentions, K name ∨ ∃ i < n, name = Lowering.castName i

variable {K : String → Prop} {m n : Nat} {a b c : Expr}

theorem Below.mono (h : a.Below K m) (hle : m ≤ n) : a.Below K n := by
  intro name hname
  rcases h name hname with hknown | ⟨i, hi, rfl⟩
  · exact .inl hknown
  · exact .inr ⟨i, Nat.lt_of_lt_of_le hi hle, rfl⟩

theorem Below.of_mentions_nil (h : a.mentions = []) : a.Below K n := by
  rw [Below, h]
  exact List.forall_mem_nil _

theorem below_known {name : String} (h : K name) : (ref name).Below K n :=
  List.forall_mem_singleton.mpr (.inl h)

theorem below_castName {i : Nat} (h : i < n) : (ref (Lowering.castName i)).Below K n :=
  List.forall_mem_singleton.mpr (.inr ⟨i, h, rfl⟩)

theorem below_binary (operator : Operator) (ha : a.Below K n) (hb : b.Below K n) :
    (binary operator a b).Below K n :=
  List.forall_mem_append.mpr ⟨ha, hb⟩

theorem below_mux (hc : c.Below K n) (ha : a.Below K n) (hb : b.Below K n) :
    (mux c a b).Below K n :=
  List.forall_mem_append.mpr ⟨List.forall_mem_append.mpr ⟨hc, ha⟩, hb⟩

theorem below_field (width : Nat) (ha : a.Below K n) (hb : b.Below K n) :
    (field a b width).Below K n :=
  List.forall_mem_append.mpr ⟨ha, hb⟩

end Rtl.Expr

open Rtl.Expr (below_known below_castName below_binary below_mux below_field)

section Operators

variable {K : String → Prop} {n : Nat} {a b : Rtl.Expr}

theorem below_read (t : ScalarType) (ha : a.Below K n) : (t.read a).Below K n := by
  unfold ScalarType.read
  split
  · exact ha
  · exact ha

theorem below_apply (op : BinaryOp) (ha : a.Below K n) (hb : b.Below K n) :
    (op.apply a b).Below K n := by
  cases op with
  | min => exact below_mux (below_binary _ ha hb) ha hb
  | max => exact below_mux (below_binary _ ha hb) ha hb
  | _ => exact below_binary _ ha hb

theorem below_apply_unary (op : UnaryIntrinsic) (signed : Bool) (ha : a.Below K n) :
    (op.apply signed a).Below K n := by
  cases op with
  | abs => exact below_mux (below_binary _ ha (.of_mentions_nil rfl)) ha ha
  | bitNot => exact ha
  | reinterpret => cases signed <;> exact ha

theorem below_apply_pair (op : BinaryIntrinsic) (signed : Bool) (ha : a.Below K n)
    (hb : b.Below K n) : (op.apply signed a b).Below K n := by
  cases op with
  | difference =>
      exact below_mux (below_binary _ ha hb) (below_binary _ hb ha) (below_binary _ ha hb)
  | _ => exact below_binary _ ha hb

theorem below_computedPlace {coordinates : List (Rtl.Expr × Nat)}
    (h : ∀ c ∈ coordinates, c.1.Below K n) : (computedPlace coordinates).Below K n := by
  induction coordinates with
  | nil => exact .of_mentions_nil rfl
  | cons c rest ih =>
      rw [List.forall_mem_cons] at h
      cases rest with
      | nil => exact h.1
      | cons d more =>
          exact below_binary _ h.1 (below_binary _ (ih h.2) (.of_mentions_nil rfl))

end Operators

/-- Wires of conversions with the numbers from `n` on, each with a value that mentions no wire
    with its own number or a later one. -/
def InTurn (K : String → Prop) : Nat → List CastWire → Prop
  | _, [] => True
  | n, c :: rest => (c.name = Lowering.castName n ∧ c.value.Below K n) ∧ InTurn K (n + 1) rest

theorem inTurn_append {K : String → Prop} {n : Nat} {v w : List CastWire} :
    InTurn K n (v ++ w) ↔ InTurn K n v ∧ InTurn K (n + v.length) w := by
  induction v generalizing n with
  | nil => exact ⟨fun h => ⟨trivial, h⟩, And.right⟩
  | cons c rest ih =>
      rw [List.cons_append, InTurn, InTurn, ih, List.length_cons, Nat.add_assoc, Nat.add_comm 1,
        ← and_assoc]

/-- Between two states there have been `count` conversions, and their wires are left. -/
structure Converted (K : String → Prop) (s t : LoweringState) (count : Nat) : Prop where
  bound : t.bound = s.bound
  castCount : t.castCount = s.castCount + count
  pending : ∃ wires, t.pending = s.pending ++ wires ∧ wires.length = count ∧
    InTurn K s.castCount wires

namespace Converted

variable {K : String → Prop} {r s t : LoweringState} {m n : Nat}

theorem refl (s : LoweringState) : Converted K s s 0 :=
  ⟨rfl, rfl, [], (List.append_nil _).symm, rfl, trivial⟩

theorem trans (h : Converted K r s m) (h' : Converted K s t n) : Converted K r t (m + n) := by
  rcases h.pending with ⟨v, hv, hlength, hturn⟩
  rcases h'.pending with ⟨w, hw, hlength', hturn'⟩
  refine ⟨h'.bound.trans h.bound, ?_, v ++ w, ?_, ?_, inTurn_append.mpr ⟨hturn, ?_⟩⟩
  · rw [h'.castCount, h.castCount, Nat.add_assoc]
  · rw [hw, hv, List.append_assoc]
  · rw [List.length_append, hlength, hlength']
  · rwa [hlength, ← h.castCount]

end Converted

namespace Lowering

variable {α β : Type}

/-- A computation that starts behind `start` conversions and has `count` of its own, where the
    names in `scope` are bound. -/
def Numbers (K : String → Prop) (scope : List String) (start count : Nat) (m : Lowering α)
    (P : α → Prop) : Prop :=
  ∀ s a t, s.castCount = start → s.bound.map Prod.fst = scope →
    (∀ b ∈ s.bound, b.2.Below K start) → Returns m s a t → Converted K s t count ∧ P a

namespace Numbers

variable {K : String → Prop} {scope : List String} {start count count' : Nat} {P : α → Prop}
  {Q : β → Prop} {m : Lowering α} {f : α → Lowering β}

theorem pure {a : α} (h : P a) : Numbers K scope start 0 (Pure.pure a) P := by
  intro s b t _ _ _ hreturns
  rcases returns_pure.mp hreturns with ⟨rfl, rfl⟩
  exact ⟨.refl _, h⟩

theorem lift {x : Fallible α} (h : ∀ a, x = .ok a → P a) :
    Numbers K scope start 0 (liftM x : Lowering α) P := by
  intro s a t _ _ _ hreturns
  rcases returns_lift.mp hreturns with ⟨ha, rfl⟩
  exact ⟨.refl _, h a ha⟩

theorem refused {failure : Failure} :
    Numbers K scope start count (liftM (Except.error failure : Fallible α)) P :=
  fun _ _ _ _ _ _ hreturns => absurd (returns_lift.mp hreturns).1 (by simp)

theorem bind (hm : Numbers K scope start count m P)
    (hf : ∀ a, P a → Numbers K scope (start + count) count' (f a) Q) :
    Numbers K scope start (count + count') (m >>= f) Q := by
  intro s b t hs hscope hbound hreturns
  rcases returns_bind.mp hreturns with ⟨a, r, hfirst, hrest⟩
  rcases hm s a r hs hscope hbound hfirst with ⟨hconverted, ha⟩
  have hinside : ∀ b ∈ r.bound, b.2.Below K (start + count) := by
    rw [hconverted.bound]
    exact fun b hb => (hbound b hb).mono (Nat.le_add_right _ _)
  rcases hf a ha r b t (by rw [hconverted.castCount, hs]) (by rw [hconverted.bound, hscope])
    hinside hrest with ⟨hmore, hb⟩
  exact ⟨hconverted.trans hmore, hb⟩

/-- What comes behind may go without conversions. -/
theorem last (hm : Numbers K scope start count m P)
    (hf : ∀ a, P a → Numbers K scope (start + count) 0 (f a) Q) :
    Numbers K scope start count (m >>= f) Q :=
  hm.bind hf

theorem map {g : α → β} (hm : Numbers K scope start count m P) (hg : ∀ a, P a → Q (g a)) :
    Numbers K scope start count (m >>= fun a => Pure.pure (g a)) Q :=
  hm.last fun a ha => .pure (hg a ha)

theorem binding {name : String} {value : Rtl.Expr} (hvalue : value.Below K start)
    (hm : Numbers K (name :: scope) start count m P) :
    Numbers K scope start count (Lowering.binding name value m) P := by
  intro s a t hs hscope hbound hreturns
  rcases returns_binding.mp hreturns with ⟨r, hbody, rfl⟩
  have hinside : ∀ b ∈ (s.bind name value).bound, b.2.Below K start :=
    List.forall_mem_cons.mpr ⟨hvalue, hbound⟩
  have hnames : (s.bind name value).bound.map Prod.fst = name :: scope := by rw [← hscope]; rfl
  rcases hm (s.bind name value) a r hs hnames hinside hbody with ⟨hconverted, ha⟩
  refine ⟨⟨?_, hconverted.castCount, hconverted.pending⟩, ha⟩
  rw [LoweringState.unbind, hconverted.bound]
  rfl

theorem castWire {width : Nat} {value : Rtl.Expr} (hvalue : value.Below K start) :
    Numbers K scope start 1 (Lowering.castWire width value) fun name => name = castName start := by
  rintro s name t rfl _ _ hreturns
  rcases returns_castWire hreturns with ⟨rfl, rfl⟩
  exact ⟨⟨rfl, rfl, [_], rfl, rfl, ⟨rfl, hvalue⟩, trivial⟩, rfl⟩

end Numbers

end Lowering

namespace Expr

/-- Whether an expression converts a value. -/
def isConversion : Expr → Bool
  | .cast _ _ => true
  | _ => false

mutual

/-- The signals an expression reads, if the names in `scope` are bound around it. -/
def reads (scope : List String) : Expr → List String
  | .intImm _ _ => []
  | .uintImm _ _ => []
  | .floatImm _ _ => []
  | .textImm _ => []
  | .var _ name => if printName name ∈ scope then [] else [printName name]
  | .cast _ value => value.reads scope
  | .binary _ a b => a.reads scope ++ b.reads scope
  | .not a => a.reads scope
  | .select condition ifTrue ifFalse =>
      condition.reads scope ++ ifTrue.reads scope ++ ifFalse.reads scope
  | .letIn name value body => value.reads scope ++ body.reads (printName name :: scope)
  | .call _ name args callType =>
      (if callType = .access || isStencilName name then [printName name] else [])
        ++ readsOfList scope args
  | .load _ _ index => index.reads scope

/-- The signals that some expressions read. -/
def readsOfList (scope : List String) : List Expr → List String
  | [] => []
  | e :: rest => e.reads scope ++ readsOfList scope rest

end

end Expr

namespace Scope

open Lowering StencilRtl.Expr

variable (s : Scope) {K : String → Prop} {scope : List String}

/-- A name that is not bound is read. -/
theorem numbers_variableValue {type : ScalarType} {name : String} (start : Nat)
    (h : ∀ signal ∈ (Expr.var type name).reads scope, K signal) :
    Numbers K scope start 0 (s.variableValue type name) (Rtl.Expr.Below K start) := by
  rintro r x t hstart rfl hbound hreturns
  have hrest := returns_get_bind.mp hreturns
  split at hrest
  · next value hvalue =>
    rcases returns_pure.mp hrest with ⟨rfl, rfl⟩
    rcases Option.map_eq_some_iff.mp hvalue with ⟨b, hb, rfl⟩
    exact ⟨.refl _, hbound b (List.mem_of_find?_eq_some hb)⟩
  · next hvalue =>
    rcases returns_pure.mp hrest with ⟨rfl, rfl⟩
    -- What is not found among the bound names is no bound name.
    have hfree : printName name ∉ t.bound.map Prod.fst := by
      intro hmem
      rcases List.mem_map.mp hmem with ⟨b, hb, hname⟩
      have hnone := List.find?_eq_none.mp (Option.map_eq_none_iff.mp hvalue) b hb
      exact hnone (decide_eq_true hname)
    rw [Expr.reads, if_neg hfree, List.forall_mem_singleton] at h
    refine ⟨.refl _, ?_⟩
    split
    · exact below_known h
    · exact below_read _ (below_known h)

/-- Constant coordinates need no conversions, so it does not matter that they are not lowered. -/
theorem numbers_locate {name : String} {args : List Expr} {start count : Nat}
    (hconstant : ∀ index, args.mapM Expr.constant? = some index → count = 0)
    (hcoordinates : Numbers K scope start count (s.coordinates args)
      fun cs => ∀ c ∈ cs, c.Below K (start + count)) :
    Numbers K scope start count (s.locate name args (s.coordinates args)) fun l =>
      l.signal = printName name ∧
        ∀ flat, l.place = .computed flat → flat.Below K (start + count) := by
  unfold locate
  simp only []
  split
  · exact .refused
  split
  · exact .refused
  split
  · next index hindex =>
    rw [hconstant index hindex]
    exact .bind (.lift fun _ _ => trivial) fun _ (_ : True) => .bind (.lift fun _ _ => trivial)
      fun _ (_ : True) => .pure ⟨rfl, fun _ hplace => absurd hplace (by simp)⟩
  · refine hcoordinates.map fun cs hcs => ⟨rfl, fun flat hplace => ?_⟩
    rw [← Place.computed.inj hplace]
    exact below_computedPlace fun c hc => hcs _ (List.of_mem_zip hc).1

theorem below_element {l : Location} {e : Rtl.Expr} {n : Nat} (h : l.element = .ok e)
    (hsignal : K l.signal) (hplace : ∀ flat, l.place = .computed flat → flat.Below K n) :
    e.Below K n := by
  rcases element_cases h with ⟨flat, low, _, _, rfl⟩ | ⟨flat, hflat, rfl⟩
  · exact below_known hsignal
  · exact below_field _ (below_known hsignal) (hplace flat hflat)

/-- Constants are literals, -/
theorem countP_of_constant {e : Expr} {c : Int} (h : e.constant? = some c) :
    e.nodes.countP isConversion = 0 := by
  cases e with
  | intImm type value => rfl
  | uintImm type value => rfl
  | _ => exact absurd h (by simp [Expr.constant?])

/-- so there are no conversions in constant coordinates. -/
theorem countP_of_constants {args : List Expr} {index : List Int}
    (h : args.mapM Expr.constant? = some index) :
    (Expr.nodesOfList args).countP isConversion = 0 := by
  induction args generalizing index with
  | nil => rfl
  | cons e rest ih =>
      rw [List.mapM_cons] at h
      rcases Option.bind_eq_some_iff.mp h with ⟨c, hc, h⟩
      rcases Option.bind_eq_some_iff.mp h with ⟨more, hmore, _⟩
      rw [Expr.nodesOfList, List.countP_append, ih hmore, countP_of_constant hc]

mutual

/-- Lowering an expression has one conversion for each in it. -/
theorem numbers_lower : ∀ (e : Expr) (scope : List String) (start : Nat),
    (∀ name ∈ e.reads scope, K name) →
    Numbers K scope start (e.nodes.countP isConversion) (s.lower e)
      fun x => x.Below K (start + e.nodes.countP isConversion)
  | .intImm type value, scope, start, _ => by
      refine .pure ?_
      unfold ScalarType.intLiteral
      split <;> exact .of_mentions_nil rfl
  | .uintImm _ _, scope, start, _ => .pure (.of_mentions_nil rfl)
  | .floatImm _ _, scope, start, _ => .refused
  | .textImm _, scope, start, _ => .refused
  | .load _ _ _, scope, start, _ => .refused
  | .var type name, scope, start, h =>
      s.numbers_variableValue start h
  | .cast type value, scope, start, h => by
      rw [Expr.reads] at h
      rw [Expr.nodes, List.countP_cons_of_pos rfl]
      unfold lower
      split
      · exact .bind (P := fun _ => False) .refused fun _ h => h.elim
      · refine (numbers_lower value scope start h).bind fun x hx => (Numbers.castWire hx).map ?_
        rintro _ rfl
        exact below_read _ (below_castName (by omega))
  | .binary op a b, scope, start, h => by
      rw [Expr.reads, List.forall_mem_append] at h
      rw [Expr.nodes, List.countP_cons_of_neg Bool.false_ne_true, List.countP_append]
      refine (numbers_lower a scope start h.1).bind fun x hx =>
        (numbers_lower b scope _ h.2).map fun y hy => ?_
      rw [← Nat.add_assoc]
      exact below_apply op (hx.mono (Nat.le_add_right _ _)) hy
  | .not a, scope, start, h => by
      rw [Expr.reads] at h
      rw [Expr.nodes, List.countP_cons_of_neg Bool.false_ne_true]
      exact (numbers_lower a scope start h).map fun _ hx => hx
  | .select condition ifTrue ifFalse, scope, start, h => by
      rw [Expr.reads, List.forall_mem_append, List.forall_mem_append] at h
      rw [Expr.nodes, List.countP_cons_of_neg Bool.false_ne_true, List.countP_append,
        List.countP_append, Nat.add_assoc]
      refine (numbers_lower condition scope start h.1.1).bind fun x hx =>
        (numbers_lower ifTrue scope _ h.1.2).bind fun y hy =>
          (numbers_lower ifFalse scope _ h.2).map fun z hz => ?_
      rw [← Nat.add_assoc, ← Nat.add_assoc]
      exact below_mux (hx.mono (by omega)) (hy.mono (by omega)) hz
  | .letIn name value body, scope, start, h => by
      rw [Expr.reads, List.forall_mem_append] at h
      rw [Expr.nodes, List.countP_cons_of_neg Bool.false_ne_true, List.countP_append,
        ← Nat.add_assoc]
      exact (numbers_lower value scope start h.1).bind fun x hx =>
        .binding hx (numbers_lower body _ _ h.2)
  | .call type name args callType, scope, start, h => by
      rw [Expr.reads, List.forall_mem_append] at h
      rw [Expr.nodes, List.countP_cons_of_neg Bool.false_ne_true]
      unfold lower
      split
      · next haccess =>
        rw [if_pos haccess, List.forall_mem_singleton] at h
        refine (s.numbers_locate (fun _ => countP_of_constants)
          (numbers_coordinates args scope start h.2)).last fun l hl => ?_
        have hsignal : K l.signal := hl.1 ▸ h.1
        exact (Numbers.lift fun e he => below_element he hsignal hl.2).map fun e he =>
          below_read _ he
      split
      · split <;> exact .refused
      split
      · exact .refused
      refine (numbers_lowerAll args scope start h.2).last fun xs hxs => ?_
      split
      · exact .pure (below_apply_unary _ _ (hxs _ (List.mem_cons_self ..)))
      · exact .pure (below_apply_pair _ _ (hxs _ (List.mem_cons_self ..))
          (hxs _ (List.mem_cons_of_mem _ (List.mem_cons_self ..))))
      · exact .refused

/-- So does lowering operands -/
theorem numbers_lowerAll : ∀ (es : List Expr) (scope : List String) (start : Nat),
    (∀ name ∈ Expr.readsOfList scope es, K name) →
    Numbers K scope start ((Expr.nodesOfList es).countP isConversion) (s.lowerAll es)
      fun xs => ∀ x ∈ xs, x.Below K (start + (Expr.nodesOfList es).countP isConversion)
  | [], scope, start, _ => .pure (List.forall_mem_nil _)
  | e :: rest, scope, start, h => by
      rw [Expr.readsOfList, List.forall_mem_append] at h
      rw [Expr.nodesOfList, List.countP_append]
      refine (numbers_lower e scope start h.1).bind fun x hx =>
        (numbers_lowerAll rest scope _ h.2).map fun more hmore => ?_
      rw [← Nat.add_assoc]
      exact List.forall_mem_cons.mpr ⟨hx.mono (Nat.le_add_right _ _), hmore⟩

/-- and coordinates. -/
theorem numbers_coordinates : ∀ (es : List Expr) (scope : List String) (start : Nat),
    (∀ name ∈ Expr.readsOfList scope es, K name) →
    Numbers K scope start ((Expr.nodesOfList es).countP isConversion) (s.coordinates es)
      fun xs => ∀ x ∈ xs, x.Below K (start + (Expr.nodesOfList es).countP isConversion)
  | [], scope, start, _ => .pure (List.forall_mem_nil _)
  | e :: rest, scope, start, h => by
      rw [Expr.readsOfList, List.forall_mem_append] at h
      rw [Expr.nodesOfList, List.countP_append]
      have hmore : ∀ (x : Rtl.Expr) (n : Nat), x.Below K (start + n) →
          Numbers K scope (start + n) ((Expr.nodesOfList rest).countP isConversion)
            (do return x :: (← s.coordinates rest))
            fun xs => ∀ x ∈ xs, x.Below K
              (start + (n + (Expr.nodesOfList rest).countP isConversion)) := by
        intro x n hx
        refine (numbers_coordinates rest scope _ h.2).map fun more hmore => ?_
        rw [← Nat.add_assoc]
        exact List.forall_mem_cons.mpr ⟨hx.mono (Nat.le_add_right _ _), hmore⟩
      unfold coordinates
      split
      · next c hc =>
        have hnumber : (Rtl.Expr.number c).Below K (start + 0) := .of_mentions_nil rfl
        rw [countP_of_constant hc]
        exact (Numbers.pure hnumber).bind fun x hx => hmore x 0 hx
      · exact (numbers_lower e scope start h.1).bind fun x hx => hmore x _ hx

end

end Scope

end StencilRtl
