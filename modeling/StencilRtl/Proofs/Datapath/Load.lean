import StencilRtl.Proofs.Datapath.Lowering
import StencilRtl.Proofs.Datapath.Run
import StencilRtl.Proofs.Rtl.Body
import StencilRtl.Proofs.Signals

/-!
# What a Datapath Does in One Load

The signals of a datapath hold what its body computes when all actions look at the
same signals.

`Settled` says that every signal of a module has the value it is assigned, which is
all that is known of logic without a clock. From that, `Follows` says action by
action what the result signals, the named values and the stores into local
stencils are worth, and everything after it needs no hardware anymore.

## Main definitions

* `Settled`: The signals of a module have the values they are assigned.
* `StagePlan.HasDatapath`: The module of a datapath.
* `StagePlan.Lowers`: How the actions of a body are lowered, one by one.
* `StagePlan.Follows`: What the signals of a datapath hold, action by action.

## Theorems

* `StagePlan.lowers_of_returns`: Actions are lowered in no other way.
* `StagePlan.Follows.induction_on`: An induction along the actions, by their sorts.
* `StagePlan.datapathBody_parts`: The parts of the logic of a datapath.
* `Lowers.follows`: The signals of a datapath follow its actions.
* `HasDatapath.follows`: So do those of the module.
-/

namespace StencilRtl

/-- A signal of some width is declared, as a port or in the body. -/
def Rtl.Module.Declares (m : Rtl.Module) (name : String) (width : Nat) : Prop :=
  (∃ q ∈ m.ports, q.name = name ∧ q.width = width) ∨ .wire name width ∈ m.body

/-- The signals of a module have the values they are assigned, and running a process
    that has no clock once more changes nothing. -/
structure Settled {V : Type} (I : Interpretation V) (m : Rtl.Module) (σ : Signals V) : Prop where
  value : ∀ name width value, m.Declares name width →
    .assign (.ref name) value ∈ m.body → σ.value name = I.fit width (I.eval σ value)
  element : ∀ word low width value, .assign (.part (.ref word) low width) value ∈ m.body →
    σ.element word (low / width) = I.fit width (I.eval σ value)
  word : ∀ word source, .assign (.ref word) (.ref source) ∈ m.body →
    σ.element word = σ.element source
  process : ∀ body, .process .combinational body ∈ m.body →
    I.executeAll σ σ.element body = σ.element

/-- The module of a datapath, with its text. -/
structure StagePlan.HasDatapath (p : StagePlan) (m : Rtl.Module) : Prop where
  ports : p.datapathPorts = .ok m.ports
  body : (p.datapathBody.run.run .initial).1 = .ok m.body
  renders : ∃ text, m.render = .ok text

/-- The wires left behind are declared, and none is left. -/
theorem returns_declareCasts {s t : LoweringState} {items : List Rtl.Item}
    (h : Returns Lowering.declareCasts s items t) :
    Rtl.Body.join (s.pending.map fun c => Rtl.Body.net c.name c.width c.value) = .ok items ∧
      t = { s with pending := [] } := by
  rcases returns_bind.mp h with ⟨casts, r, htake, hjoin⟩
  rcases returns_lift.mp hjoin with ⟨hitems, rfl⟩
  rcases returns_bind.mp (returns_get_bind.mp htake) with ⟨_, s₃, hmodify, hpure⟩
  rcases returns_pure.mp hpure with ⟨rfl, rfl⟩
  exact ⟨hitems, returns_modify.mp hmodify⟩

/-- They are declared with the drivers they wait for. -/
theorem declareCasts_returns {s t : LoweringState} {items : List Rtl.Item}
    (h : Returns Lowering.declareCasts s items t) :
    t = { s with pending := [] } ∧
      ∀ c ∈ s.pending, .wire c.name c.width ∈ items ∧ .assign (.ref c.name) c.value ∈ items := by
  rcases returns_declareCasts h with ⟨hitems, ht⟩
  refine ⟨ht, fun c hc => ?_⟩
  rcases Rtl.Body.join_ok hitems _ (List.mem_map_of_mem hc) with ⟨own, hown, hsub⟩
  rcases Rtl.Body.net_ok hown with ⟨hwire, hassign⟩
  exact ⟨hsub _ hwire, hsub _ hassign⟩

section Lowered

variable {p : StagePlan} {V : Type} {I : Interpretation V} {m : Rtl.Module} {σ : Signals V}

/-- Wires that are declared and driven have settled. -/
theorem Settled.casts (h : Settled I m σ) {wires : List CastWire} {items : List Rtl.Item}
    (hitems : ∀ c ∈ wires, .wire c.name c.width ∈ items ∧ .assign (.ref c.name) c.value ∈ items)
    (hsub : ∀ i ∈ items, i ∈ m.body) : ∀ c ∈ wires, c.Settled I σ := by
  intro c hc
  rcases hitems c hc with ⟨hwire, hassign⟩
  exact h.value _ _ _ (.inr (hsub _ hwire)) (hsub _ hassign)

/-- With nothing bound and nothing left to declare before it, an expression that is
    followed by its wires is worth what it means. -/
theorem Settled.lowered (h : Settled I m σ) (hs : p.scope.Sized) {e : Expr} {x : Rtl.Expr}
    {r t u : LoweringState} {wires : List CastWire} {items : List Rtl.Item}
    (hlower : Returns (p.scope.lower e) r x t) (hbound : r.bound = [])
    (hpending : r.pending = []) (hadds : Adds t u wires)
    (hitems : ∀ c ∈ u.pending,
      .wire c.name c.width ∈ items ∧ .assign (.ref c.name) c.value ∈ items)
    (hsub : ∀ i ∈ items, i ∈ m.body) :
    t.bound = [] ∧ I.eval σ x = p.scope.meaning I σ [] e := by
  rcases p.scope.lower_returns e r t x hlower with ⟨own, hown, hvalue⟩
  have hsettled := h.casts hitems hsub
  rw [hadds.pending, hown.pending, hpending] at hsettled
  have hempty : r.values I σ = [] := by
    rw [LoweringState.values, hbound, List.map_nil]
  have hworth := hvalue I σ hs
  rw [hempty] at hworth
  refine ⟨hown.bound.trans hbound, hworth fun c hc => hsettled c ?_⟩
  exact List.mem_append_left _ (List.mem_append_right _ hc)

/-- So is the value of a store, and its place is where it goes. -/
theorem Settled.store (h : Settled I m σ) (hs : p.scope.Sized) {stencil : String}
    {args : List Expr} {value : Expr} {x : Rtl.Expr} {l : Location} {casts : List Rtl.Item}
    {r r₁ r₂ r₃ : LoweringState} (hx : Returns (p.scope.lower value) r x r₁)
    (hl : Returns (p.scope.locate stencil args (p.scope.coordinates args)) r₁ l r₂)
    (hcasts : Returns Lowering.declareCasts r₂ casts r₃) (hbound : r.bound = [])
    (hpending : r.pending = []) (hsub : ∀ i ∈ casts, i ∈ m.body) :
    (r₃.bound = [] ∧ r₃.pending = []) ∧ I.eval σ x = p.scope.meaning I σ [] value ∧
      l.place.spot I σ = p.scope.spot I σ [] stencil args := by
  rcases declareCasts_returns hcasts with ⟨hr₃, hdeclared⟩
  rcases p.scope.locate_returns
    (fun cs t' => p.scope.coordinates_returns args r₁ t' cs) hl with
    ⟨_, _, wires, hadds, hspot⟩
  rcases h.lowered hs hx hbound hpending hadds hdeclared hsub with ⟨hbound₁, hvalue⟩
  have hempty : r₁.values I σ = [] := by
    rw [LoweringState.values, hbound₁, List.map_nil]
  have hplace := hspot I σ hs
  rw [hempty] at hplace
  refine ⟨?_, hvalue, hplace fun c hc => h.casts hdeclared hsub c ?_⟩
  · rw [hr₃]
    exact ⟨hadds.bound.trans hbound₁, rfl⟩
  · rw [hadds.pending]
    exact List.mem_append_right _ hc

/-- The signals of a datapath hold what the actions from the result with number `k`
    on compute, and the actions store values into elements of local stencils. -/
def StagePlan.Follows (p : StagePlan) (I : Interpretation V) (σ : Signals V) (indexWidth : Nat) :
    Nat → List Action → List StoredElement → Prop
  | _, [], stored => stored = []
  | k, .letIn name value :: rest, stored =>
      σ.value name = I.fit value.type.width (p.scope.meaning I σ [] value) ∧
        p.Follows I σ indexWidth k rest stored
  | k, .provide stencil args value :: rest, stored =>
      if stencil = p.output.stencil then
        σ.value (resultSignal k)
            = I.fit p.output.shape.elem.bits (p.scope.meaning I σ [] value) ∧
          I.index (σ.value (indexSignal k))
            = (Timing.atOnce I σ indexWidth).place (p.scope.spot I σ [] stencil args) ∧
          p.Follows I σ indexWidth (k + 1) rest stored
      else
        ∃ flat x more, p.isLocal stencil = true ∧
          p.scope.spot I σ [] stencil args = .fixed flat ∧
          I.eval σ x = p.scope.meaning I σ [] value ∧ stored = ⟨stencil, flat, x⟩ :: more ∧
          p.Follows I σ indexWidth k rest more

/-- An induction along actions that are followed, with the stores into the window apart from
    those into local stencils. -/
@[elab_as_elim]
theorem StagePlan.Follows.induction_on {indexWidth : Nat}
    {motive : ∀ k actions stored, p.Follows I σ indexWidth k actions stored → Prop}
    {k : Nat} {actions : List Action} {stored : List StoredElement}
    (h : p.Follows I σ indexWidth k actions stored)
    (nil : ∀ k, motive k [] [] rfl)
    (letIn : ∀ {k name value rest stored}
      (hvalue : σ.value name = I.fit value.type.width (p.scope.meaning I σ [] value))
      (hrest : p.Follows I σ indexWidth k rest stored), motive k rest stored hrest →
        motive k (.letIn name value :: rest) stored ⟨hvalue, hrest⟩)
    (output : ∀ {k stencil args value rest stored} (_ : stencil = p.output.stencil)
      (_ : σ.value (resultSignal k)
        = I.fit p.output.shape.elem.bits (p.scope.meaning I σ [] value))
      (_ : I.index (σ.value (indexSignal k))
        = (Timing.atOnce I σ indexWidth).place (p.scope.spot I σ [] stencil args))
      (hrest : p.Follows I σ indexWidth (k + 1) rest stored)
      (hall : p.Follows I σ indexWidth k (.provide stencil args value :: rest) stored),
        motive (k + 1) rest stored hrest → motive k _ stored hall)
    (kept : ∀ {k stencil args value rest flat x stored} (_ : stencil ≠ p.output.stencil)
      (_ : p.isLocal stencil = true) (_ : p.scope.spot I σ [] stencil args = .fixed flat)
      (_ : I.eval σ x = p.scope.meaning I σ [] value)
      (hrest : p.Follows I σ indexWidth k rest stored)
      (hall : p.Follows I σ indexWidth k (.provide stencil args value :: rest)
        (⟨stencil, flat, x⟩ :: stored)), motive k rest stored hrest → motive k _ _ hall) :
    motive k actions stored h := by
  induction actions generalizing k stored with
  | nil =>
      rcases (h : stored = []) with rfl
      exact nil k
  | cons a rest ih =>
      cases a with
      | letIn name value => exact letIn h.1 h.2 (ih h.2)
      | provide stencil args value =>
          -- Whether a store goes to the window or to a local stencil is what the definition asks
          -- as well.
          have hcases := h
          rw [Follows] at hcases
          split at hcases
          · next hout => exact output hout hcases.1 hcases.2.1 hcases.2.2 h (ih hcases.2.2)
          · next hout =>
            rcases hcases with ⟨flat, x, more, hlocal, hfixed, hx, rfl, hmore⟩
            exact kept hout hlocal hfixed hx hmore h (ih hmore)

theorem StagePlan.countP_writesTo_output {stencil : String} {args : List Expr} {value : Expr}
    {rest : List Action} (hout : stencil = p.output.stencil) :
    (Action.provide stencil args value :: rest).countP (Action.writesTo p.output.stencil)
      = rest.countP (Action.writesTo p.output.stencil) + 1 :=
  List.countP_cons_of_pos (decide_eq_true hout)

theorem StagePlan.countP_writesTo_local {stencil : String} {args : List Expr} {value : Expr}
    {rest : List Action} (hout : stencil ≠ p.output.stencil) :
    (Action.provide stencil args value :: rest).countP (Action.writesTo p.output.stencil)
      = rest.countP (Action.writesTo p.output.stencil) :=
  List.countP_cons_of_neg (Bool.eq_false_iff.mp (decide_eq_false hout))

/-- How the actions from the result with number `k` on are lowered: the wires an action needs
    stand before what it drives, and what is stored into a local stencil is kept for later. -/
inductive StagePlan.Lowers (p : StagePlan) (indexWidth : Nat) :
    Nat → List Action → LoweringState → List Rtl.Item → List StoredElement → LoweringState → Prop
  | nil {k : Nat} {r : LoweringState} : StagePlan.Lowers p indexWidth k [] r [] [] r
  | letIn {k : Nat} {name : String} {value : Expr} {rest : List Action} {r r₁ r₂ t : LoweringState}
      {x : Rtl.Expr} {casts wire items : List Rtl.Item} {stored : List StoredElement}
      (hx : Returns (p.scope.lower value) r x r₁)
      (hcasts : Returns Lowering.declareCasts r₁ casts r₂)
      (hwire : Rtl.Body.net name value.type.width x = .ok wire)
      (hrest : StagePlan.Lowers p indexWidth k rest r₂ items stored t) :
      StagePlan.Lowers p indexWidth k (.letIn name value :: rest) r (casts ++ wire ++ items) stored t
  | output {k : Nat} {stencil : String} {args : List Expr} {value : Expr} {rest : List Action}
      {r r₁ r₂ r₃ t : LoweringState} {x : Rtl.Expr} {l : Location} {casts items : List Rtl.Item}
      {stored : List StoredElement} (hout : stencil = p.output.stencil)
      (hx : Returns (p.scope.lower value) r x r₁)
      (hl : Returns (p.scope.locate stencil args (p.scope.coordinates args)) r₁ l r₂)
      (hcasts : Returns Lowering.declareCasts r₂ casts r₃)
      (hrest : StagePlan.Lowers p indexWidth (k + 1) rest r₃ items stored t) :
      StagePlan.Lowers p indexWidth k (.provide stencil args value :: rest) r
        (casts ++ StagePlan.result k x (StagePlan.placeIndex indexWidth l.place) ++ items) stored t
  | kept {k : Nat} {stencil : String} {args : List Expr} {value : Expr} {rest : List Action}
      {r r₁ r₂ r₃ t : LoweringState} {x : Rtl.Expr} {l : Location} {flat : Nat}
      {casts items : List Rtl.Item} {stored : List StoredElement}
      (hlocal : p.isLocal stencil = true) (hout : stencil ≠ p.output.stencil)
      (hx : Returns (p.scope.lower value) r x r₁)
      (hl : Returns (p.scope.locate stencil args (p.scope.coordinates args)) r₁ l r₂)
      (hplace : l.place = .fixed flat) (hcasts : Returns Lowering.declareCasts r₂ casts r₃)
      (hrest : StagePlan.Lowers p indexWidth k rest r₃ items stored t) :
      StagePlan.Lowers p indexWidth k (.provide stencil args value :: rest) r (casts ++ items)
        (⟨stencil, flat, x⟩ :: stored) t

/-- Actions that have been lowered were lowered one by one. -/
theorem StagePlan.lowers_of_returns {indexWidth : Nat} (actions : List Action) {k : Nat}
    {r t : LoweringState} {items : List Rtl.Item} {stored : List StoredElement}
    (h : Returns (p.lowerActions indexWidth k actions) r (items, stored) t) :
    p.Lowers indexWidth k actions r items stored t := by
  induction actions generalizing k r items stored with
  | nil =>
      rcases returns_pure.mp h with ⟨hitems, rfl⟩
      rcases Prod.mk.inj hitems with ⟨rfl, rfl⟩
      exact .nil
  | cons a rest ih =>
      cases a with
      | letIn name value =>
          rcases returns_bind.mp h with ⟨x, r₁, hx, h₁⟩
          rcases returns_bind.mp h₁ with ⟨casts, r₂, hcasts, h₂⟩
          rcases returns_lift_bind.mp h₂ with ⟨wire, hwire, h₃⟩
          rcases returns_bind.mp h₃ with ⟨⟨more, stored'⟩, r₃, hrest, h₄⟩
          rcases returns_pure.mp h₄ with ⟨hitems, rfl⟩
          rcases Prod.mk.inj hitems with ⟨rfl, rfl⟩
          exact .letIn hx hcasts hwire (ih hrest)
      | provide stencil args value =>
          rcases returns_bind.mp h with ⟨x, r₁, hx, h₁⟩
          rcases returns_bind.mp h₁ with ⟨l, r₂, hl, h₂⟩
          rcases returns_bind.mp h₂ with ⟨casts, r₃, hcasts, h₃⟩
          by_cases hout : stencil = p.output.stencil
          · rw [if_pos hout] at h₃
            rcases returns_bind.mp h₃ with ⟨⟨more, stored'⟩, r₄, hrest, h₄⟩
            rcases returns_pure.mp h₄ with ⟨hitems, rfl⟩
            rcases Prod.mk.inj hitems with ⟨rfl, rfl⟩
            exact .output hout hx hl hcasts (ih hrest)
          -- Only the output and the local stencils may be stored into, and the latter only at
          -- places known in advance.
          rw [if_neg hout] at h₃
          split at h₃
          · next hany =>
            have hlocal : p.isLocal stencil = true := by
              simp only [StagePlan.isLocal, ne_eq, hout, not_false_eq_true, decide_true, hany,
                Bool.and_self]
            split at h₃
            · exact absurd (returns_lift.mp h₃).1 (by simp [unsupported])
            · next flat hplace =>
              rcases returns_bind.mp h₃ with ⟨⟨more, stored'⟩, r₄, hrest, h₄⟩
              rcases returns_pure.mp h₄ with ⟨hitems, rfl⟩
              rcases Prod.mk.inj hitems with ⟨rfl, rfl⟩
              exact .kept hlocal hout hx hl hplace hcasts (ih hrest)
          · exact absurd (returns_lift.mp h₃).1 (by simp [unsupported])

/-- The logic of a datapath in its parts: the local stencils, the actions, the drivers of the local
    stencils, and the condition with the wires it needs. -/
theorem StagePlan.datapathBody_parts {t : LoweringState} {items : List Rtl.Item}
    (h : Returns p.datapathBody .initial items t) :
    ∃ declarations indexWidth body stored drivers commit casts r s,
      p.localDeclarations = .ok declarations ∧ p.writer.indexWidth = .ok indexWidth ∧
      p.Lowers indexWidth 0 p.actions .initial body stored r ∧
      Rtl.Body.join (p.stencils.map (localDrivers stored)) = .ok drivers ∧
      Returns p.commitValue r commit s ∧ Returns Lowering.declareCasts s casts t ∧
      items = declarations ++ body ++ drivers ++ casts ++ [.assign (.ref "commit") commit] := by
  rcases returns_lift_bind.mp h with ⟨declarations, hdeclarations, h⟩
  rcases returns_lift_bind.mp h with ⟨indexWidth, hwidth, h⟩
  rcases returns_bind.mp h with ⟨⟨body, stored⟩, r, hbody, h⟩
  rcases returns_lift_bind.mp h with ⟨drivers, hdrivers, h⟩
  rcases returns_bind.mp h with ⟨commit, s, hcommit, h⟩
  rcases returns_bind.mp h with ⟨casts, u, hcasts, h⟩
  rcases returns_pure.mp h with ⟨rfl, rfl⟩
  exact ⟨declarations, indexWidth, body, stored, drivers, commit, casts, r, s, hdeclarations,
    hwidth, lowers_of_returns p.actions hbody, hdrivers, hcommit, hcasts, rfl⟩

/-- The signals of a datapath follow its actions. -/
theorem StagePlan.Lowers.follows {indexWidth k : Nat} {actions : List Action} {r t : LoweringState}
    {items : List Rtl.Item} {stored : List StoredElement}
    (hlowers : p.Lowers indexWidth k actions r items stored t) (h : Settled I m σ)
    (hs : p.scope.Sized)
    (hports : ∀ k < p.writer.writes, m.Declares (resultSignal k) p.output.shape.elem.bits ∧
      m.Declares (indexSignal k) indexWidth)
    (hbound : r.bound = []) (hpending : r.pending = []) (hsub : ∀ i ∈ items, i ∈ m.body)
    (hcount : k + actions.countP (Action.writesTo p.output.stencil) ≤ p.writer.writes) :
    p.Follows I σ indexWidth k actions stored ∧ t.bound = [] ∧ t.pending = [] := by
  induction hlowers with
  | nil => exact ⟨rfl, hbound, hpending⟩
  | @letIn k name value rest r r₁ r₂ t x casts wire items stored hx hcasts hwire _ ih =>
      rcases declareCasts_returns hcasts with ⟨hr₂, hdeclared⟩
      rcases h.lowered hs hx hbound hpending (.refl r₁) hdeclared
        (fun i hi => hsub i (by simp [hi])) with ⟨hbound₁, hvalue⟩
      rcases Rtl.Body.net_ok hwire with ⟨hdeclare, hassign⟩
      have hname : σ.value name = I.fit value.type.width (I.eval σ x) :=
        h.value _ _ _ (.inr (hsub _ (by simp [hdeclare]))) (hsub _ (by simp [hassign]))
      rw [hvalue] at hname
      have hstate : r₂.bound = [] ∧ r₂.pending = [] := by
        rw [hr₂]
        exact ⟨hbound₁, rfl⟩
      rcases ih hstate.1 hstate.2 (fun i hi => hsub i (by simp [hi])) hcount with ⟨hfollows, hends⟩
      exact ⟨⟨hname, hfollows⟩, hends⟩
  | @output k stencil args value rest r r₁ r₂ r₃ t x l casts items stored hout hx hl hcasts _ ih =>
      rw [Follows, if_pos hout]
      rcases h.store hs hx hl hcasts hbound hpending (fun i hi => hsub i (by simp [hi])) with
        ⟨⟨hbound₃, hpending₃⟩, hvalue, hspot⟩
      rw [countP_writesTo_output hout] at hcount
      rcases hports k (by omega) with ⟨hresult, hindex⟩
      have hown : σ.value (resultSignal k) = I.fit p.output.shape.elem.bits (I.eval σ x) :=
        h.value _ _ _ hresult (hsub _ (by simp [StagePlan.result]))
      have hplace : σ.value (indexSignal k)
          = I.fit indexWidth (I.eval σ (placeIndex indexWidth l.place)) :=
        h.value _ _ _ hindex (hsub _ (by simp [StagePlan.result]))
      -- The place in the window is what its signal carries.
      have hfits : I.index (σ.value (indexSignal k))
          = (Timing.atOnce I σ indexWidth).place (p.scope.spot I σ [] stencil args) := by
        rw [hplace, ← hspot]
        cases l.place with
        | fixed flat => simp only [Place.spot, Timing.atOnce, placeIndex, Interpretation.eval]
        | computed flat => simp only [Place.spot, Timing.atOnce, placeIndex]
      rcases ih hbound₃ hpending₃ (fun i hi => hsub i (by simp [hi])) (by omega) with
        ⟨hfollows, hends⟩
      exact ⟨⟨by rw [hown, hvalue], hfits, hfollows⟩, hends⟩
  | @kept k stencil args value rest r r₁ r₂ r₃ t x l flat casts items stored hlocal hout hx hl hplace
      hcasts _ ih =>
      rw [Follows, if_neg hout]
      rcases h.store hs hx hl hcasts hbound hpending (fun i hi => hsub i (by simp [hi])) with
        ⟨⟨hbound₃, hpending₃⟩, hvalue, hspot⟩
      rw [countP_writesTo_local hout] at hcount
      rcases ih hbound₃ hpending₃ (fun i hi => hsub i (by simp [hi])) hcount with ⟨hfollows, hends⟩
      rw [hplace] at hspot
      exact ⟨⟨flat, x, _, hlocal, hspot.symm, hvalue, rfl, hfollows⟩, hends⟩

end Lowered

/-- A word with bits has elements with bits. -/
theorem Shape.bits_pos {shape : Shape} {width : Nat} (h : shape.dataWidth = .ok width)
    (hwidth : width ≠ 0) : 0 < shape.elem.bits := by
  rw [dataWidth_ok h] at hwidth
  exact Nat.pos_of_ne_zero (Nat.mul_ne_zero_iff.mp hwidth).2

/-- Some signal of a port carries its windows. -/
theorem Shape.exists_signal {shape : Shape} {name : String} {direction : Direction}
    {signals : List Signal} (h : shape.signals name direction = .ok signals) :
    ∃ width, shape.dataWidth = .ok width ∧ ∃ signal ∈ signals, signal.width = width := by
  rcases Fallible.bind_ok.mp h with ⟨width, hwidth, hpure⟩
  rcases Except.ok.inj hpure with ⟨⟩
  refine ⟨width, hwidth, ?_⟩
  cases shape.kind with
  | scalar => exact ⟨_, List.mem_cons_self .., rfl⟩
  | stencil => exact ⟨_, List.mem_cons_self .., rfl⟩
  | stream => exact ⟨_, List.mem_cons_self .., rfl⟩
  | busStream => exact ⟨_, List.mem_cons_self .., rfl⟩

namespace StagePlan.HasDatapath

variable {p : StagePlan} {m : Rtl.Module}

/-- No port of a datapath is without bits. -/
theorem port_width (h : p.HasDatapath m) : ∀ q ∈ m.ports, q.width ≠ 0 := by
  rcases h.renders with ⟨text, htext⟩
  unfold Rtl.Module.render at htext
  split at htext
  · exact absurd htext (by simp [giveWay])
  · next hports =>
    intro q hq hzero
    exact hports (List.any_eq_true.mpr ⟨q, hq, by simp [hzero]⟩)

/-- The ports of a datapath: one for each operand, and two for each result. -/
theorem operand (h : p.HasDatapath m) :
    ∃ indexWidth, p.writer.indexWidth = .ok indexWidth ∧
      (∀ entry ∈ p.windows ++ p.params, ∃ ports,
        Rtl.Port.ofShape entry.1 entry.2 .input = .ok ports ∧ ∀ q ∈ ports, q ∈ m.ports) ∧
      ∀ k < p.writer.writes, m.Declares (resultSignal k) p.output.shape.elem.bits ∧
        m.Declares (indexSignal k) indexWidth := by
  rcases Fallible.bind_ok.mp h.ports with ⟨indexWidth, hwidth, h₁⟩
  rcases Fallible.bind_ok.mp h₁ with ⟨vars, _, h₂⟩
  rcases Fallible.bind_ok.mp h₂ with ⟨operands, hoperands, hpure⟩
  have hports := Except.ok.inj hpure
  refine ⟨indexWidth, hwidth, fun entry hentry => ?_, fun k hk => ?_⟩
  · rcases Fallible.mem_of_mapM_ok hoperands entry hentry with ⟨ports, hin, hports'⟩
    refine ⟨ports, hports', fun q hq => ?_⟩
    rw [← hports]
    simp only [List.mem_append, List.mem_flatten]
    exact .inl (.inl (.inr ⟨ports, hin, hq⟩))
  -- The ports of results stand behind those of the operands.
  · have hown : ∀ q ∈ AssemblyPlan.resultPorts indexWidth p.output.shape.elem.bits .output k,
        q ∈ m.ports := by
      intro q hq
      rw [← hports]
      simp only [List.mem_append, List.mem_flatMap, List.mem_range]
      exact .inl (.inr ⟨k, hk, hq⟩)
    exact ⟨.inl ⟨_, hown _ (List.mem_cons_self ..), rfl, rfl⟩,
      .inl ⟨_, hown _ (List.mem_cons_of_mem _ (List.mem_singleton_self _)), rfl, rfl⟩⟩

/-- The parts of the logic are in the module. -/
theorem parts (h : p.HasDatapath m) :
    ∃ declarations indexWidth items stored drivers t, p.localDeclarations = .ok declarations ∧
      p.writer.indexWidth = .ok indexWidth ∧
      p.Lowers indexWidth 0 p.actions .initial items stored t ∧
      Rtl.Body.join (p.stencils.map (localDrivers stored)) = .ok drivers ∧
      ∀ i, i ∈ declarations ∨ i ∈ items ∨ i ∈ drivers → i ∈ m.body := by
  rcases datapathBody_parts (returns_of_run h.body) with
    ⟨declarations, indexWidth, items, stored, drivers, commit, casts, r, s, hdeclared, hwidth,
      hactions, hdriven, _, _, hbody⟩
  refine ⟨declarations, indexWidth, items, stored, drivers, _, hdeclared, hwidth, hactions,
    hdriven, fun i hi => ?_⟩
  rw [hbody]
  simp only [List.mem_append]
  tauto

/-- A local stencil takes bits. -/
theorem local_bits (h : p.HasDatapath m) (l : LocalStencil) (hl : l ∈ p.stencils) :
    0 < l.shape.elem.bits := by
  rcases h.parts with ⟨declarations, _, _, _, _, _, hdeclared, _⟩
  rcases Rtl.Body.join_ok hdeclared _ (List.mem_map_of_mem hl) with ⟨own, hown, _⟩
  rcases Fallible.bind_ok.mp hown with ⟨width, hwidth, hwire⟩
  exact Shape.bits_pos hwidth (Rtl.Body.wire_ok hwire).1

/-- The elements of everything a body can refer to take bits. -/
theorem sized (h : p.HasDatapath m) : p.scope.Sized := by
  intro name shape hshape
  rcases Option.map_eq_some_iff.mp hshape with ⟨⟨name', shape'⟩, hfind, rfl⟩
  have hin := List.mem_reverse.mp (List.mem_of_find?_eq_some hfind)
  rcases h.operand with ⟨_, _, hoperands, _⟩
  have hport : ∀ entry ∈ p.windows ++ p.params, 0 < entry.2.elem.bits := by
    intro entry hentry
    rcases hoperands entry hentry with ⟨ports, hports, hsub⟩
    rcases Fallible.bind_ok.mp hports with ⟨signals, hsignals, hpure⟩
    rcases Except.ok.inj hpure with ⟨⟩
    rcases Shape.exists_signal hsignals with ⟨width, hwidth, signal, hsignal, hsame⟩
    -- An operand has a port, and a port without bits is none.
    refine Shape.bits_pos hwidth fun hzero => ?_
    exact h.port_width _ (hsub _ (List.mem_map_of_mem hsignal)) (hsame.trans hzero)
  simp only [scope, List.mem_append, List.mem_map, List.mem_filter] at hin
  rcases hin with (hwindow | ⟨hparam, _⟩) | ⟨l, hl, hpair⟩
  · exact hport _ (List.mem_append_left _ hwindow)
  · exact hport _ (List.mem_append_right _ hparam)
  · rw [← (Prod.mk.inj hpair).2]
    exact h.local_bits l hl

/-- The signals of a datapath follow the actions of its body, and an element of a
    local stencil holds what is last stored into it. -/
theorem follows (h : p.HasDatapath m) {V : Type} {I : Interpretation V} {σ : Signals V}
    (hσ : Settled I m σ) :
    ∃ indexWidth stored, p.writer.indexWidth = .ok indexWidth ∧
      p.Follows I σ indexWidth 0 p.actions stored ∧
      ∀ l ∈ p.stencils, ∀ flat < l.shape.extents.prod, ∀ x,
        storedValue? stored l.name flat = some x →
        σ.element l.name flat = I.fit l.shape.elem.bits (I.eval σ x) := by
  rcases h.parts with ⟨_, indexWidth, items, stored, drivers, t, _, hwidth, hactions, hdriven, hsub⟩
  rcases h.operand with ⟨indexWidth', hwidth', _, hports⟩
  rcases Except.ok.inj (hwidth.symm.trans hwidth') with ⟨⟩
  have hcount : 0 + p.actions.countP (Action.writesTo p.output.stencil) ≤ p.writer.writes := by
    rw [Nat.zero_add]
    exact Nat.le_refl _
  rcases hactions.follows hσ h.sized hports rfl rfl
    (fun i hi => hsub i (.inr (.inl hi))) hcount with ⟨hfollows, _⟩
  refine ⟨indexWidth, stored, hwidth, hfollows, fun l hl flat hflat x hx => ?_⟩
  -- The driver of an element is the one made for its part of the word.
  rcases Rtl.Body.join_ok hdriven _ (List.mem_map_of_mem hl) with ⟨own, hown, hitems⟩
  rcases Fallible.bind_ok.mp hown with ⟨elems, helems, hmap⟩
  have hrange : flat ∈ List.range elems := by
    rw [List.mem_range, Word.product_ok helems]
    exact hflat
  rcases Fallible.mem_of_mapM_ok hmap flat hrange with ⟨item, hitem, hdriver⟩
  rcases Fallible.bind_ok.mp hdriver with ⟨low, hlow, hpure⟩
  rcases Except.ok.inj hpure with ⟨⟩
  have helement := hσ.element _ _ _ _ (hsub _ (.inr (.inr (hitems _ hitem))))
  rw [← (Word.mul_eq_ok.mp hlow).2, Nat.mul_div_cancel _ (h.local_bits l hl), hx] at helement
  exact helement

end StagePlan.HasDatapath

end StencilRtl
