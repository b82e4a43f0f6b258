import StencilRtl.Proofs.Datapath.Interpretation
import StencilRtl.Proofs.Fallible

/-!
# Lowering Keeps the Meaning of Expressions

A hardware expression is worth what the kernel's expression means.

An expression becomes hardware in pieces: a conversion is moved into a wire of its
own, which is declared later, and a name bound inside the expression is replaced
by what it stands for. So the result of a lowering is worth something only once
the wires it left behind have settled. `Adds` says which wires those are, and
that the names bound around the expression are the same as before.

An element of a stencil is found at its place only if the elements take any bits
at all, since fields of no width all lie at the same bit.

## Main definitions

* `CastWire.Settled`: The wire of a conversion has the value it stands for.
* `Adds`: The wires a computation leaves to be declared.

## Theorems

* `locate_returns`: A location is where the element lies.
* `lower_returns`: A lowered expression is worth what it means.
* `declareCasts_returns`: The wires left behind are declared.
-/

namespace StencilRtl

namespace Lowering

variable {α : Type} {s t : LoweringState}

/-- The name of the wire with number `k`. -/
def castName (k : Nat) : String := s!"cast_{k}"

/-- The scope of a name ends where its body ends. -/
theorem returns_binding {name : String} {value : Rtl.Expr} {body : Lowering α} {a : α} :
    Returns (binding name value body) s a t ↔
      ∃ r, Returns body (s.bind name value) a r ∧ t = r.unbind := by
  have hrun : (binding name value body).run.run s
      = ((body.run.run (s.bind name value)).1, (body.run.run (s.bind name value)).2.unbind) := rfl
  unfold Returns
  rw [hrun, Prod.mk.injEq]
  constructor
  · rintro ⟨hok, rfl⟩
    exact ⟨(body.run.run (s.bind name value)).2, Prod.ext hok rfl, rfl⟩
  · rintro ⟨r, hbody, rfl⟩
    rw [hbody]
    exact ⟨rfl, rfl⟩

theorem returns_castWire {width : Nat} {value : Rtl.Expr} {name : String}
    (h : Returns (castWire width value) s name t) :
    name = castName s.castCount ∧ t = { s with
      pending := s.pending ++ [⟨name, width, value⟩]
      castCount := s.castCount + 1 } := by
  rcases returns_bind.mp (returns_get_bind.mp h) with ⟨_, s₃, hmodify, hpure⟩
  rcases returns_pure.mp hpure with ⟨rfl, rfl⟩
  exact ⟨rfl, returns_modify.mp hmodify⟩

end Lowering

/-- The wire of a conversion has the value it stands for. -/
def CastWire.Settled {V : Type} (I : Interpretation V) (σ : Signals V) (c : CastWire) : Prop :=
  σ.value c.name = I.fit c.width (I.eval σ c.value)

/-- What the bound names are worth. -/
def LoweringState.values {V : Type} (I : Interpretation V) (σ : Signals V) (s : LoweringState) :
    List (String × V) :=
  s.bound.map fun b => (b.1, I.eval σ b.2)

/-- A computation leaves some wires to be declared, which go on with the numbers of those
    before them, and the bound names alone. -/
structure Adds (s t : LoweringState) (wires : List CastWire) : Prop where
  bound : t.bound = s.bound
  pending : t.pending = s.pending ++ wires
  count : t.castCount = s.castCount + wires.length
  names : wires.map CastWire.name
    = (List.range' s.castCount wires.length).map Lowering.castName

namespace Adds

variable {s t r : LoweringState} {v w : List CastWire}

theorem refl (s : LoweringState) : Adds s s [] := ⟨rfl, (List.append_nil _).symm, rfl, rfl⟩

theorem trans (h : Adds s t v) (h' : Adds t r w) : Adds s r (v ++ w) where
  bound := h'.bound.trans h.bound
  pending := by rw [h'.pending, h.pending, List.append_assoc]
  count := by rw [h'.count, h.count, List.length_append, Nat.add_assoc]
  names := by
    rw [List.map_append, h.names, h'.names, h.count, ← List.map_append, List.length_append,
      ← List.range'_append_1]

theorem values {V : Type} (h : Adds s t v) (I : Interpretation V) (σ : Signals V) :
    t.values I σ = s.values I σ := by
  unfold LoweringState.values
  rw [h.bound]

end Adds

/-- A bound name is worth what it stands for. -/
theorem boundValue?_values {V : Type} (I : Interpretation V) (σ : Signals V) (s : LoweringState)
    (name : String) :
    Scope.boundValue? (s.values I σ) name = (s.value? name).map (I.eval σ) := by
  unfold Scope.boundValue? LoweringState.value? LoweringState.values
  rw [List.find?_map, Option.map_map, Option.map_map]
  rfl

/-- Checked coordinates are the coordinates, and each is inside its extent. -/
theorem checkedCoordinates_ok {name : String} {d : Nat} {index : List Int} {extents : List Nat}
    {coordinates : List Nat}
    (h : checkedCoordinates name d (index.zip extents) = .ok coordinates) :
    coordinates = (index.zip extents).map (fun p => p.1.toNat) ∧
      ∀ p ∈ index.zip extents, p.1.toNat < p.2 := by
  -- The check goes along the pairs, and so does the induction.
  generalize index.zip extents = pairs at h
  induction pairs generalizing d coordinates with
  | nil =>
      rw [checkedCoordinates, Except.ok.injEq] at h
      exact ⟨h.symm, fun p hp => absurd hp List.not_mem_nil⟩
  | cons p rest ih =>
      rcases p with ⟨i, e⟩
      unfold checkedCoordinates at h
      split at h
      · exact absurd h (by simp [unsupported])
      · next hin =>
        rcases Fallible.bind_ok.mp h with ⟨more, hmore, hcons⟩
        rcases Except.ok.inj hcons with ⟨⟩
        rcases ih hmore with ⟨hmap, hall⟩
        refine ⟨by rw [hmap, List.map_cons], fun q hq => ?_⟩
        rcases List.mem_cons.mp hq with rfl | hq
        · simp only []
          omega
        · exact hall q hq

/-- The number of the element at constant coordinates is computed in words without
    any loss. -/
theorem flatIndex_ok {extents index : List Nat} {flat : Nat}
    (h : flatIndex extents index = .ok flat) :
    flat = (index.zip extents).foldr (fun (i, e) acc => acc * e + i) 0 := by
  unfold flatIndex at h
  generalize index.zip extents = pairs at h
  induction pairs generalizing flat with
  | nil => exact (Except.ok.inj h).symm
  | cons p rest ih =>
      rcases p with ⟨i, e⟩
      rw [List.foldrM_cons] at h
      rcases Fallible.bind_ok.mp h with ⟨acc, hacc, hstep⟩
      rcases Fallible.bind_ok.mp hstep with ⟨product, hproduct, hsum⟩
      rw [List.foldr_cons, ← ih hacc, ← (Word.add_eq_ok.mp hsum).2,
        ← (Word.mul_eq_ok.mp hproduct).2]

/-- A place known in advance is the place of the coordinates. -/
theorem flatIndex_checkedCoordinates {name : String} {d : Nat} {index : List Int}
    {extents coordinates : List Nat} {flat : Nat}
    (hchecked : checkedCoordinates name d (index.zip extents) = .ok coordinates)
    (hflat : flatIndex extents coordinates = .ok flat) : flat = flatPlace extents index := by
  rw [flatIndex_ok hflat, (checkedCoordinates_ok hchecked).1, flatPlace]
  have hzip : ∀ (xs : List Int) (es : List Nat),
      ((xs.zip es).map fun p => p.1.toNat).zip es
        = (xs.zip es).map fun p => (p.1.toNat, p.2) := by
    intro xs
    induction xs with
    | nil => exact fun es => rfl
    | cons x rest ih =>
        intro es
        cases es with
        | nil => rfl
        | cons e more => simp only [List.zip_cons_cons, List.map_cons, ih more]
  rw [hzip, List.foldr_map]

/-- The place of a location, as a place of the kernel's stencil. -/
def Place.spot {V : Type} (I : Interpretation V) (σ : Signals V) : Place → Spot V
  | .fixed flat => .fixed flat
  | .computed flat => .computed (I.eval σ flat)

namespace Scope

variable {s : Scope} {V : Type} {I : Interpretation V} {σ : Signals V} {r t : LoweringState}

/-- The elements of all stencils take bits. -/
def Sized (s : Scope) : Prop := ∀ name shape, s.stencil? name = some shape → 0 < shape.elem.bits

/-- A location is where the element lies, given that the lowered coordinates are
    worth what the coordinates mean. -/
theorem locate_returns {name : String} {args : List Expr} {coordinates : Lowering (List Rtl.Expr)}
    {l : Location}
    (hcoordinates : ∀ cs t', Returns coordinates r cs t' → ∃ wires, Adds r t' wires ∧
      ∀ (I : Interpretation V) (σ : Signals V),
        s.Sized → (∀ c ∈ wires, c.Settled I σ) →
        I.evalList σ cs = s.coordinateValues I σ (r.values I σ) args)
    (h : Returns (s.locate name args coordinates) r l t) :
    l.signal = printName name ∧ s.stencil? (printName name) = some l.shape ∧
      ∃ wires, Adds r t wires ∧ ∀ (I : Interpretation V) (σ : Signals V),
        s.Sized → (∀ c ∈ wires, c.Settled I σ) →
        l.place.spot I σ = s.spot I σ (r.values I σ) name args := by
  unfold locate at h
  simp only [] at h
  split at h
  · exact absurd (returns_lift.mp h).1 (by simp [undefinedName])
  next shape hshape =>
  have hextents : s.extentsOf name = shape.extents := by
    rw [extentsOf, hshape, Option.map_some, Option.getD_some]
  split at h
  · exact absurd (returns_lift.mp h).1 (by simp [unsupported])
  split at h
  -- Constant coordinates leave no wires behind,
  · next index hindex =>
    rcases returns_lift_bind.mp h with ⟨cs, hcs, h₁⟩
    rcases returns_lift_bind.mp h₁ with ⟨flat, hflat, h₂⟩
    rcases returns_pure.mp h₂ with ⟨rfl, rfl⟩
    refine ⟨rfl, hshape, [], .refl _, fun I σ _ _ => ?_⟩
    rw [Place.spot, spot, hindex, hextents, flatIndex_checkedCoordinates hcs hflat]
  -- and computed ones leave those of the coordinates.
  · next hindex =>
    rcases returns_bind.mp h with ⟨cs, r₁, hcs, h₁⟩
    rcases returns_pure.mp h₁ with ⟨rfl, rfl⟩
    rcases hcoordinates cs _ hcs with ⟨wires, hadds, hvalues⟩
    refine ⟨rfl, hshape, wires, hadds, fun I σ hs hsettled => ?_⟩
    rw [Place.spot, I.eval_computedPlace, hvalues I σ hs hsettled, spot, hindex, hextents]

/-- An element is some bits of the signal at a fixed place, or a field of it at a computed one. -/
theorem element_cases {l : Location} {e : Rtl.Expr} (h : l.element = .ok e) :
    (∃ flat low, l.place = .fixed flat ∧ Word.mul flat l.shape.elem.bits = .ok low ∧
      e = .part (.ref l.signal) low l.shape.elem.bits) ∨
      ∃ flat, l.place = .computed flat ∧ e = .field (.ref l.signal) flat l.shape.elem.bits := by
  unfold Location.element at h
  cases hplace : l.place with
  | fixed flat =>
      rw [hplace] at h
      rcases Fallible.bind_ok.mp h with ⟨low, hlow, hpure⟩
      exact .inl ⟨flat, low, rfl, hlow, (Except.ok.inj hpure).symm⟩
  | computed flat =>
      rw [hplace] at h
      exact .inr ⟨flat, rfl, (Except.ok.inj h).symm⟩

/-- The element at a location is the element it names. -/
theorem element_ok {l : Location} {e : Rtl.Expr} (hs : 0 < l.shape.elem.bits)
    (h : l.element = .ok e) :
    I.eval σ e = σ.element l.signal ((l.place.spot I σ).flat I) := by
  rcases element_cases h with ⟨flat, low, hplace, hlow, rfl⟩ | ⟨flat, hplace, rfl⟩
  · rw [hplace, Interpretation.eval, ← (Word.mul_eq_ok.mp hlow).2, Nat.mul_div_cancel _ hs]
    rfl
  · rw [hplace, Interpretation.eval]
    rfl

mutual

/-- A lowered expression is worth what it means, once the wires it left behind
    have settled. -/
theorem lower_returns : ∀ (e : Expr) (r t : LoweringState) (x : Rtl.Expr),
    Returns (s.lower e) r x t → ∃ wires, Adds r t wires ∧
      ∀ (I : Interpretation V) (σ : Signals V),
        s.Sized → (∀ c ∈ wires, c.Settled I σ) → I.eval σ x = s.meaning I σ (r.values I σ) e
  | .intImm type value, r, t, x, h => by
      rcases returns_pure.mp h with ⟨rfl, rfl⟩
      refine ⟨[], .refl _, fun I σ _ _ => ?_⟩
      rw [I.eval_intLiteral, meaning]
  | .uintImm type value, r, t, x, h => by
      rcases returns_pure.mp h with ⟨rfl, rfl⟩
      refine ⟨[], .refl _, fun I σ _ _ => ?_⟩
      rw [Interpretation.eval, meaning]
  | .floatImm _ _, r, t, x, h => absurd (returns_lift.mp h).1 (by simp [unsupported])
  | .textImm _, r, t, x, h => absurd (returns_lift.mp h).1 (by simp [unsupported])
  | .load _ _ _, r, t, x, h => absurd (returns_lift.mp h).1 (by simp [unsupported])
  | .var type name, r, t, x, h => by
      have hrest := returns_get_bind.mp h
      split at hrest
      · next value hvalue =>
        rcases returns_pure.mp hrest with ⟨rfl, rfl⟩
        refine ⟨[], .refl _, fun I σ _ _ => ?_⟩
        rw [meaning, variableMeaning]
        simp only [boundValue?_values, hvalue, Option.map_some]
      · next hvalue =>
        rcases returns_pure.mp hrest with ⟨rfl, rfl⟩
        refine ⟨[], .refl _, fun I σ _ _ => ?_⟩
        rw [meaning, variableMeaning]
        simp only [boundValue?_values, hvalue, Option.map_none]
        split
        · rw [Interpretation.eval]
        · rw [I.eval_read, Interpretation.eval]
  | .cast type value, r, t, x, h => by
      unfold lower at h
      split at h
      · rcases returns_bind.mp h with ⟨_, _, hfail, _⟩
        exact absurd (returns_lift.mp hfail).1 (by simp [unsupported])
      rcases returns_bind.mp h with ⟨v, r₁, hv, h₁⟩
      rcases returns_bind.mp h₁ with ⟨wire, r₂, hwire, h₂⟩
      rcases returns_pure.mp h₂ with ⟨rfl, rfl⟩
      rcases lower_returns value _ r₁ v hv with ⟨wires, hadds, hvalue⟩
      -- The wire of a conversion settles behind those of the value it takes.
      have hcast : Adds r₁ t [⟨wire, type.width, v⟩] := by
        rcases Lowering.returns_castWire hwire with ⟨rfl, rfl⟩
        exact ⟨rfl, rfl, rfl, rfl⟩
      refine ⟨wires ++ [⟨wire, type.width, v⟩], hadds.trans hcast, fun I σ hs hsettled => ?_⟩
      have hown : σ.value wire = I.fit type.width (I.eval σ v) :=
        hsettled _ (List.mem_append_right _ (List.mem_singleton_self _))
      rw [I.eval_read, Interpretation.eval, hown, meaning,
        hvalue I σ hs fun c hc => hsettled c (List.mem_append_left _ hc)]
  | .binary op a b, r, t, x, h => by
      rcases returns_bind.mp h with ⟨a', r₁, ha, h₁⟩
      rcases returns_bind.mp h₁ with ⟨b', r₂, hb, h₂⟩
      rcases returns_pure.mp h₂ with ⟨rfl, rfl⟩
      rcases lower_returns a r r₁ a' ha with ⟨v, hv, hva⟩
      rcases lower_returns b r₁ _ b' hb with ⟨w, hw, hwb⟩
      refine ⟨v ++ w, hv.trans hw, fun I σ hs hsettled => ?_⟩
      rw [I.eval_apply_binary, meaning, hva I σ hs fun c hc => hsettled c (List.mem_append_left _ hc),
        hwb I σ hs fun c hc => hsettled c (List.mem_append_right _ hc), hv.values]
  | .not a, r, t, x, h => by
      rcases returns_bind.mp h with ⟨a', r₁, ha, h₁⟩
      rcases returns_pure.mp h₁ with ⟨rfl, rfl⟩
      rcases lower_returns a r _ a' ha with ⟨wires, hadds, hvalue⟩
      refine ⟨wires, hadds, fun I σ hs hsettled => ?_⟩
      rw [Interpretation.eval, meaning, hvalue I σ hs hsettled]
  | .select condition ifTrue ifFalse, r, t, x, h => by
      rcases returns_bind.mp h with ⟨c', r₁, hc, h₁⟩
      rcases returns_bind.mp h₁ with ⟨t', r₂, ht, h₂⟩
      rcases returns_bind.mp h₂ with ⟨f', r₃, hf, h₃⟩
      rcases returns_pure.mp h₃ with ⟨rfl, rfl⟩
      rcases lower_returns condition r r₁ c' hc with ⟨u, hu, huc⟩
      rcases lower_returns ifTrue r₁ r₂ t' ht with ⟨v, hv, hvt⟩
      rcases lower_returns ifFalse r₂ _ f' hf with ⟨w, hw, hwf⟩
      refine ⟨u ++ (v ++ w), hu.trans (hv.trans hw), fun I σ hs hsettled => ?_⟩
      have hrest : ∀ c ∈ v ++ w, c.Settled I σ := fun c hc =>
        hsettled c (List.mem_append_right _ hc)
      rw [Interpretation.eval, meaning, huc I σ hs fun c hc => hsettled c (List.mem_append_left _ hc),
        hvt I σ hs fun c hc => hrest c (List.mem_append_left _ hc),
        hwf I σ hs fun c hc => hrest c (List.mem_append_right _ hc), hv.values, hu.values]
  | .letIn name value body, r, t, x, h => by
      rcases returns_bind.mp h with ⟨v', r₁, hv, h₁⟩
      rcases Lowering.returns_binding.mp h₁ with ⟨r₂, hb, rfl⟩
      rcases lower_returns value r r₁ v' hv with ⟨v, hadds, hvalue⟩
      rcases lower_returns body _ r₂ x hb with ⟨w, hinside, hbody⟩
      -- Behind the body the name is no longer bound, and the wires stay.
      have hoverall : Adds r₁ r₂.unbind w := by
        refine ⟨?_, hinside.pending, hinside.count, hinside.names⟩
        rw [LoweringState.unbind, hinside.bound]
        rfl
      refine ⟨v ++ w, hadds.trans hoverall, fun I σ hs hsettled => ?_⟩
      have hbound : (r₁.bind (printName name) v').values I σ
          = (printName name, s.meaning I σ (r.values I σ) value) :: r.values I σ := by
        rw [← hvalue I σ hs fun c hc => hsettled c (List.mem_append_left _ hc), ← hadds.values I σ]
        rfl
      rw [meaning, hbody I σ hs fun c hc => hsettled c (List.mem_append_right _ hc), hbound]
  | .call type name args callType, r, t, x, h => by
      unfold lower at h
      split at h
      · next haccess =>
        rcases returns_bind.mp h with ⟨l, r₁, hl, h₁⟩
        rcases returns_lift_bind.mp h₁ with ⟨e, helement, h₂⟩
        rcases returns_pure.mp h₂ with ⟨rfl, rfl⟩
        rcases locate_returns (fun cs t' => coordinates_returns args r t' cs) hl with
          ⟨hsignal, hshape, wires, hadds, hspot⟩
        refine ⟨wires, hadds, fun I σ hs hsettled => ?_⟩
        rw [I.eval_read, element_ok (hs _ _ hshape) helement, hspot I σ hs hsettled, hsignal,
          meaning_access _ _ _ _ _ _ _ _ haccess]
      · next haccess =>
        split at h
        · split at h
          · exact absurd (returns_lift.mp h).1 (by simp [unsupported])
          · exact absurd (returns_lift.mp h).1 (by simp [unsupported])
        next intrinsic hname =>
        split at h
        · exact absurd (returns_lift.mp h).1 (by simp [unsupported])
        rcases returns_bind.mp h with ⟨xs, r₁, hxs, h₁⟩
        rcases lowerAll_returns args r r₁ xs hxs with ⟨wires, hadds, hvalues⟩
        split at h₁
        · rcases returns_pure.mp h₁ with ⟨rfl, rfl⟩
          refine ⟨wires, hadds, fun I σ hs hsettled => ?_⟩
          rw [I.eval_apply_unary, meaning, if_neg haccess, hname, ← hvalues I σ hs hsettled]
          rfl
        · rcases returns_pure.mp h₁ with ⟨rfl, rfl⟩
          refine ⟨wires, hadds, fun I σ hs hsettled => ?_⟩
          rw [I.eval_apply_pair, meaning, if_neg haccess, hname, ← hvalues I σ hs hsettled]
          rfl
        · exact absurd (returns_lift.mp h₁).1 (by simp [unsupported])

/-- Operands are lowered from left to right. -/
theorem lowerAll_returns : ∀ (es : List Expr) (r t : LoweringState)
    (xs : List Rtl.Expr), Returns (s.lowerAll es) r xs t → ∃ wires, Adds r t wires ∧
      ∀ (I : Interpretation V) (σ : Signals V),
        s.Sized → (∀ c ∈ wires, c.Settled I σ) →
        I.evalList σ xs = s.meanings I σ (r.values I σ) es
  | [], r, t, xs, h => by
      rcases returns_pure.mp h with ⟨rfl, rfl⟩
      exact ⟨[], .refl _, fun I σ _ _ => by rw [Interpretation.evalList, meanings]⟩
  | e :: rest, r, t, xs, h => by
      rcases returns_bind.mp h with ⟨x, r₁, hx, h₁⟩
      rcases returns_bind.mp h₁ with ⟨more, r₂, hmore, h₂⟩
      rcases returns_pure.mp h₂ with ⟨rfl, rfl⟩
      rcases lower_returns e r r₁ x hx with ⟨v, hv, hvalue⟩
      rcases lowerAll_returns rest r₁ _ more hmore with ⟨w, hw, hvalues⟩
      refine ⟨v ++ w, hv.trans hw, fun I σ hs hsettled => ?_⟩
      rw [Interpretation.evalList, meanings,
        hvalue I σ hs fun c hc => hsettled c (List.mem_append_left _ hc),
        hvalues I σ hs fun c hc => hsettled c (List.mem_append_right _ hc), hv.values]

/-- Coordinates are lowered from left to right, constants to plain numbers. -/
theorem coordinates_returns : ∀ (es : List Expr) (r t : LoweringState)
    (xs : List Rtl.Expr), Returns (s.coordinates es) r xs t → ∃ wires, Adds r t wires ∧
      ∀ (I : Interpretation V) (σ : Signals V),
        s.Sized → (∀ c ∈ wires, c.Settled I σ) →
        I.evalList σ xs = s.coordinateValues I σ (r.values I σ) es
  | [], r, t, xs, h => by
      rcases returns_pure.mp h with ⟨rfl, rfl⟩
      exact ⟨[], .refl _, fun I σ _ _ => by rw [Interpretation.evalList, coordinateValues]⟩
  | e :: rest, r, t, xs, h => by
      unfold coordinates at h
      cases hconstant : e.constant? with
      | some c =>
          rw [hconstant] at h
          rcases returns_bind.mp h with ⟨x, r₁, hx, h₁⟩
          rcases returns_pure.mp hx with ⟨rfl, rfl⟩
          rcases returns_bind.mp h₁ with ⟨more, r₂, hmore, h₂⟩
          rcases returns_pure.mp h₂ with ⟨rfl, rfl⟩
          rcases coordinates_returns rest _ _ more hmore with ⟨w, hw, hvalues⟩
          refine ⟨w, hw, fun I σ hs hsettled => ?_⟩
          rw [coordinateValues, hconstant, Interpretation.evalList, Interpretation.eval,
            hvalues I σ hs hsettled]
      | none =>
          rw [hconstant] at h
          rcases returns_bind.mp h with ⟨x, r₁, hx, h₁⟩
          rcases returns_bind.mp h₁ with ⟨more, r₂, hmore, h₂⟩
          rcases returns_pure.mp h₂ with ⟨rfl, rfl⟩
          rcases lower_returns e r r₁ x hx with ⟨v, hv, hvalue⟩
          rcases coordinates_returns rest r₁ _ more hmore with ⟨w, hw, hvalues⟩
          refine ⟨v ++ w, hv.trans hw, fun I σ hs hsettled => ?_⟩
          rw [coordinateValues, hconstant, Interpretation.evalList,
            hvalue I σ hs fun c hc => hsettled c (List.mem_append_left _ hc),
            hvalues I σ hs fun c hc => hsettled c (List.mem_append_right _ hc), hv.values]

end

end Scope

end StencilRtl
