import StencilRtl.Kernel.Builder
import StencilRtl.Proofs.Datapath.Conversions
import StencilRtl.Proofs.Netlist.Assembly
import StencilRtl.Proofs.Sharing.Vocabularies

/-!
# Conversions Are Declared Before They Are Used

Where the wires of conversions stand in a datapath.

The wires an action leaves are declared right before what the action assigns. Values for local
stencils are kept to the end, and the condition of a write is lowered there, but until then
wires have only been added. So the text of a datapath is one in which the wires of conversions
are declared in turn, and everything else mentions only those declared so far: it `Flows`.
Texts of this kind can be put together, if the second one goes on with the numbers where the
first one ends.

All this is about the wires themselves. Their names are compared with nothing, and a kernel may
have a name that is one of theirs. Then there are two signals with one name.

## Main definitions

* `Flows`: Items that declare wires of conversions before they are mentioned.
* `StagePlan.conversions`, `StagePlan.reads`: The conversions of a body and the signals it reads.
* `StagePlan.Declared`: What is declared between two actions.
* `StagePlan.narrowing`: A kernel with conversions, and a name of its own.

## Theorems

* `Flows.append`, `Flows.declared`: Texts one after the other, and what stands before a mention.
* `StagePlan.declared_datapathBody`: The body of a datapath declares all its conversions.
* `StagePlan.conversions_of_makeDatapath`: Each conversion is declared once and before it is used,
  unless a name of the kernel is in the way.
* `StagePlan.exists_conversion_declared_twice`: A name that is in the way.
-/

namespace StencilRtl

open Rtl Lowering

theorem Lowering.castName_injective {i j : Nat} (h : castName i = castName j) : i = j := by
  have hname : ∀ k, castName k = (Frame.mk "cast_" "").name k := fun _ => String.append_empty.symm
  rw [hname, hname] at h
  exact (Frame.name_injective (by decide) (by decide) h).1

/-- The wire of a conversion, declared with its driver. -/
def CastWire.items (c : CastWire) : List Item :=
  [.wire c.name c.width, .assign (.ref c.name) c.value]

/-- Items among which the wires of conversions are declared in turn, from the one with number `n`
    on. What is assigned mentions only wires that have been declared before, and only targets in
    `T` are assigned to besides. -/
inductive Flows (K T : String → Prop) : Nat → List CastWire → List Item → Prop
  | nil {n : Nat} : Flows K T n [] []
  | cast {n : Nat} {c : CastWire} {wires : List CastWire} {items : List Item}
      (hname : c.name = castName n) (hvalue : c.value.Below K n)
      (hrest : Flows K T (n + 1) wires items) : Flows K T n (c :: wires) (c.items ++ items)
  | wire {n : Nat} {wires : List CastWire} {items : List Item} {name : String} {width : Nat}
      (hrest : Flows K T n wires items) : Flows K T n wires (.wire name width :: items)
  | assign {n : Nat} {wires : List CastWire} {items : List Item} {target value : Rtl.Expr}
      (htarget : ∀ name ∈ target.target?, T name) (hvalue : value.Below K n)
      (hrest : Flows K T n wires items) : Flows K T n wires (.assign target value :: items)

namespace Flows

variable {K T : String → Prop} {n : Nat} {wires wires' : List CastWire} {items items' : List Item}

theorem append (h : Flows K T n wires items) (h' : Flows K T (n + wires.length) wires' items') :
    Flows K T n (wires ++ wires') (items ++ items') := by
  induction h with
  | nil => exact h'
  | @cast n c wires items hname hvalue _ ih =>
      have hnumber : n + (wires.length + 1) = n + 1 + wires.length := by omega
      rw [List.length_cons, hnumber] at h'
      rw [List.append_assoc]
      exact .cast hname hvalue (ih h')
  | wire _ ih => exact .wire (ih h')
  | assign htarget hvalue _ ih => exact .assign htarget hvalue (ih h')

theorem assignTo {name : String} {value : Rtl.Expr} (hname : T name) (hvalue : value.Below K n)
    (hrest : Flows K T n wires items) : Flows K T n wires (.assign (.ref name) value :: items) := by
  refine .assign ?_ hvalue hrest
  rintro _ ⟨⟩
  exact hname

theorem of_assigns (h : ∀ i ∈ items, ∃ target value, i = .assign target value ∧
    (∀ name ∈ target.target?, T name) ∧ value.Below K n) : Flows K T n [] items := by
  induction items with
  | nil => exact .nil
  | cons i rest ih =>
      rw [List.forall_mem_cons] at h
      rcases h.1 with ⟨_, _, rfl, htarget, hvalue⟩
      exact .assign htarget hvalue (ih h.2)

/-- Bodies put together, none of which declares a wire of a conversion. -/
theorem join {bodies : List Body} (h : ∀ b ∈ bodies, ∀ own, b = .ok own → Flows K T n [] own)
    (hitems : Body.join bodies = .ok items) : Flows K T n [] items := by
  induction bodies generalizing items with
  | nil =>
      rw [← Except.ok.inj hitems]
      exact .nil
  | cons b rest ih =>
      rw [List.forall_mem_cons] at h
      rcases Fallible.bind_ok.mp hitems with ⟨own, hown, hitems⟩
      rcases Fallible.bind_ok.mp hitems with ⟨more, hmore, hitems⟩
      rw [← Except.ok.inj hitems]
      exact (h.1 own hown).append (ih h.2 hmore)

/-- Wires that are declared where they are left. -/
theorem of_inTurn (h : InTurn K n wires)
    (hitems : Body.join (wires.map fun c => Body.net c.name c.width c.value) = .ok items) :
    Flows K T n wires items := by
  induction wires generalizing n items with
  | nil =>
      rw [← Except.ok.inj hitems]
      exact .nil
  | cons c rest ih =>
      rcases Fallible.bind_ok.mp hitems with ⟨own, hown, hitems⟩
      rcases Fallible.bind_ok.mp hitems with ⟨more, hmore, hitems⟩
      rw [← Except.ok.inj hitems, Body.net_eq hown]
      exact .cast h.1.1 h.1.2 (ih h.2 hmore)

/-- There is nothing but wires and what is assigned to them. -/
theorem kinds (h : Flows K T n wires items) :
    ∀ i ∈ items, (∃ name width, i = .wire name width) ∨
      ∃ target value, i = .assign target value := by
  induction h with
  | nil => exact List.forall_mem_nil _
  | cast _ _ _ ih =>
      exact List.forall_mem_cons.mpr ⟨.inl ⟨_, _, rfl⟩,
        List.forall_mem_cons.mpr ⟨.inr ⟨_, _, rfl⟩, ih⟩⟩
  | wire _ ih => exact List.forall_mem_cons.mpr ⟨.inl ⟨_, _, rfl⟩, ih⟩
  | assign _ _ _ ih => exact List.forall_mem_cons.mpr ⟨.inr ⟨_, _, rfl⟩, ih⟩

theorem names (h : Flows K T n wires items) :
    wires.map CastWire.name = (List.range' n wires.length).map castName := by
  induction h with
  | nil => rfl
  | cast hname _ _ ih =>
      rw [List.map_cons, ih, hname, List.length_cons, List.range'_succ, List.map_cons]
  | wire _ ih => exact ih
  | assign _ _ _ ih => exact ih

theorem sublist (h : Flows K T n wires items) : (wires.flatMap CastWire.items).Sublist items := by
  induction h with
  | nil => exact .slnil
  | cast _ _ _ ih => exact ih.append_left _
  | wire _ ih => exact ih.cons _
  | assign _ _ _ ih => exact ih.cons _

/-- The value of a wire mentions only wires with smaller numbers. -/
theorem value (h : Flows K T n wires items) {i : Nat} (hi : i < wires.length) :
    wires[i].value.Below K (n + i) := by
  induction h generalizing i with
  | nil => exact absurd hi (Nat.not_lt_zero i)
  | @cast n c wires items _ hvalue _ ih =>
      cases i with
      | zero => exact hvalue
      | succ i =>
          have hnumber : n + (i + 1) = n + 1 + i := by omega
          rw [hnumber]
          exact ih (Nat.lt_of_succ_lt_succ hi)
  | wire _ ih => exact ih hi
  | assign _ _ _ ih => exact ih hi

/-- What is assigned mentions only wires that have been declared before it. -/
theorem declared (h : Flows K T n wires items) {before after : List Item}
    {target value : Rtl.Expr} (hitems : items = before ++ .assign target value :: after) :
    ∃ k, value.Below K (n + k) ∧ ((wires.take k).flatMap CastWire.items).Sublist before := by
  induction h generalizing before with
  -- The split falls into the first items or behind them, where the rest of the flow says it.
  | nil => exact absurd hitems (by simp)
  | @cast n c wires items _ hvalue _ ih =>
      cases before with
      | nil => exact absurd (List.cons.inj hitems).1 (by simp)
      | cons first before =>
          rcases List.cons.inj hitems with ⟨rfl, hbehind⟩
          cases before with
          | nil =>
              rcases Item.assign.inj (List.cons.inj hbehind).1 with ⟨_, rfl⟩
              exact ⟨0, hvalue, List.nil_sublist _⟩
          | cons second before =>
              rcases List.cons.inj hbehind with ⟨rfl, hrest⟩
              rcases ih hrest with ⟨k, hbelow, hsub⟩
              have hnumber : n + (k + 1) = n + 1 + k := by omega
              exact ⟨k + 1, hnumber ▸ hbelow, (hsub.cons_cons _).cons_cons _⟩
  | wire _ ih =>
      cases before with
      | nil => exact absurd (List.cons.inj hitems).1 (by simp)
      | cons first before =>
          rcases ih (List.cons.inj hitems).2 with ⟨k, hbelow, hsub⟩
          exact ⟨k, hbelow, hsub.cons _⟩
  | assign _ hvalue _ ih =>
      cases before with
      | nil =>
          rcases Item.assign.inj (List.cons.inj hitems).1 with ⟨_, rfl⟩
          exact ⟨0, hvalue, List.nil_sublist _⟩
      | cons first before =>
          rcases ih (List.cons.inj hitems).2 with ⟨k, hbelow, hsub⟩
          exact ⟨k, hbelow, hsub.cons _⟩

/-- A name that nothing else is assigned to is assigned to by the drivers of wires only. -/
theorem count_targets (h : Flows K T n wires items) {name : String} (hname : ¬T name) :
    (items.flatMap Item.targets).count name = (wires.map CastWire.name).count name := by
  induction h with
  | nil => rfl
  | @cast _ c wires items _ _ _ ih =>
      rw [List.flatMap_append, List.count_append, ih, List.map_cons, ← List.singleton_append,
        List.count_append]
      rfl
  | wire _ ih => exact ih
  | assign htarget _ _ ih =>
      rw [List.flatMap_cons, List.count_append, ih, Item.targets, List.count_eq_zero_of_not_mem,
        Nat.zero_add]
      exact fun hmem => hname (htarget name (Option.mem_toList.mp hmem))

end Flows

/-- Everything inside the expressions of an action. -/
def Action.nodes : Action → List Expr
  | .letIn _ value => value.nodes
  | .provide _ args value => value.nodes ++ Expr.nodesOfList args

/-- The signals the expressions of an action read. -/
def Action.reads : Action → List String
  | .letIn _ value => value.reads []
  | .provide _ args value => value.reads [] ++ Expr.readsOfList [] args

namespace StagePlan

/-- Everything inside the expressions of a body. -/
def nodes (p : StagePlan) : List Expr :=
  p.actions.flatMap Action.nodes ++ p.writeGuard.toList.flatMap Expr.nodes

/-- The number of conversions in a body. -/
def conversions (p : StagePlan) : Nat := p.nodes.countP Expr.isConversion

/-- The signals the expressions of a body read. -/
def reads (p : StagePlan) : List String :=
  p.actions.flatMap Action.reads ++ p.writeGuard.toList.flatMap (Expr.reads [])

variable {p : StagePlan} {K T : String → Prop} {indexWidth : Nat}

/-- Before and behind an action nothing is bound, and nothing is left to be declared. -/
structure Resting (r : LoweringState) : Prop where
  bound : r.bound = []
  pending : r.pending = []

/-- Between two actions there have been `count` conversions, and items declare them. -/
structure Declared (K T : String → Prop) (r t : LoweringState) (count : Nat)
    (items : List Item) : Prop where
  resting : Resting t
  castCount : t.castCount = r.castCount + count
  flows : ∃ wires, wires.length = count ∧ Flows K T r.castCount wires items

namespace Declared

variable {r s t : LoweringState} {m n : Nat} {items items' : List Item}

theorem trans (h : Declared K T r s m items) (h' : Declared K T s t n items') :
    Declared K T r t (m + n) (items ++ items') := by
  rcases h.flows with ⟨wires, hlength, hflows⟩
  rcases h'.flows with ⟨wires', hlength', hflows'⟩
  refine ⟨h'.resting, by rw [h'.castCount, h.castCount, Nat.add_assoc], wires ++ wires', ?_, ?_⟩
  · rw [List.length_append, hlength, hlength']
  · rw [h.castCount, ← hlength] at hflows'
    exact hflows.append hflows'

/-- Other items may stand before what is declared, -/
theorem behind (h : Declared K T r t n items') (hitems : Flows K T r.castCount [] items) :
    Declared K T r t n (items ++ items') := by
  rcases h.flows with ⟨wires, hlength, hflows⟩
  exact ⟨h.resting, h.castCount, wires, hlength, hitems.append hflows⟩

/-- and behind it. -/
theorem followed (h : Declared K T r t n items) (hitems : Flows K T t.castCount [] items') :
    Declared K T r t n (items ++ items') := by
  rcases h.flows with ⟨wires, hlength, hflows⟩
  rw [h.castCount, ← hlength] at hitems
  have hboth := hflows.append hitems
  rw [List.append_nil] at hboth
  exact ⟨h.resting, h.castCount, wires, hlength, hboth⟩

/-- What has been converted is declared. -/
theorem of_declareCasts (hconverted : Converted K r s n) (hr : Resting r)
    (h : Returns Lowering.declareCasts s items t) : Declared K T r t n items := by
  rcases returns_declareCasts h with ⟨hitems, rfl⟩
  rcases hconverted.pending with ⟨wires, hpending, hlength, hturn⟩
  rw [hpending, hr.pending, List.nil_append] at hitems
  exact ⟨⟨hconverted.bound.trans hr.bound, rfl⟩, hconverted.castCount, wires, hlength,
    .of_inTurn hturn hitems⟩

end Declared

/-- An expression is lowered where nothing is bound. -/
theorem Resting.lower {r t : LoweringState} {e : Expr} {x : Rtl.Expr} {s : Scope} (hr : Resting r)
    (h : Returns (s.lower e) r x t) (hknown : ∀ name ∈ e.reads [], K name) :
    Converted K r t (e.nodes.countP Expr.isConversion) ∧ x.Below K t.castCount := by
  have hnone : ∀ b ∈ r.bound, b.2.Below K r.castCount := by
    rw [hr.bound]
    exact List.forall_mem_nil _
  rcases s.numbers_lower e [] _ hknown r x t rfl (by rw [hr.bound]; rfl) hnone h with
    ⟨hconverted, hvalue⟩
  exact ⟨hconverted, hconverted.castCount ▸ hvalue⟩

/-- So are the coordinates of a store, behind its value. -/
theorem Resting.locate {r s t : LoweringState} {n : Nat} {name : String} {args : List Expr}
    {l : Location} (hr : Resting r) (hconverted : Converted K r s n)
    (h : Returns (p.scope.locate name args (p.scope.coordinates args)) s l t)
    (hknown : ∀ name ∈ Expr.readsOfList [] args, K name) :
    Converted K r t (n + (Expr.nodesOfList args).countP Expr.isConversion) ∧
      ∀ flat, l.place = .computed flat → flat.Below K t.castCount := by
  have hbound : s.bound = [] := hconverted.bound.trans hr.bound
  have hnone : ∀ b ∈ s.bound, b.2.Below K s.castCount := by
    rw [hbound]
    exact List.forall_mem_nil _
  rcases p.scope.numbers_locate (fun _ => Scope.countP_of_constants)
    (p.scope.numbers_coordinates args [] _ hknown) s l t rfl (by rw [hbound]; rfl) hnone h with
    ⟨hmore, _, hplace⟩
  exact ⟨hconverted.trans hmore, hmore.castCount ▸ hplace⟩

/-- What a store needs is declared before it: the conversions of its value and of its place. -/
theorem Resting.store {r r₁ r₂ r₃ : LoweringState} {stencil : String} {args : List Expr}
    {value : Expr} {x : Rtl.Expr} {l : Location} {casts : List Item} (hr : Resting r)
    (hx : Returns (p.scope.lower value) r x r₁)
    (hl : Returns (p.scope.locate stencil args (p.scope.coordinates args)) r₁ l r₂)
    (hcasts : Returns Lowering.declareCasts r₂ casts r₃)
    (hknown : ∀ name ∈ (Action.provide stencil args value).reads, K name) :
    Declared K T r r₃ ((Action.provide stencil args value).nodes.countP Expr.isConversion) casts ∧
      x.Below K r₃.castCount ∧ ∀ flat, l.place = .computed flat → flat.Below K r₃.castCount := by
  rw [Action.reads, List.forall_mem_append] at hknown
  rw [Action.nodes, List.countP_append]
  rcases hr.lower hx hknown.1 with ⟨hconverted, hvalue⟩
  rcases hr.locate hconverted hl hknown.2 with ⟨hboth, hplace⟩
  have hown : Declared K T r r₃ _ casts := .of_declareCasts hboth hr hcasts
  rw [hboth.castCount, ← hown.castCount] at hplace
  refine ⟨hown, hvalue.mono ?_, hplace⟩
  rw [hconverted.castCount, hown.castCount]
  omega

/-- The actions of a body declare their conversions before they use them. Values for local
    stencils are kept, and mention no wires that come behind. -/
theorem Lowers.declared {actions : List Action} {k : Nat} {r t : LoweringState}
    {items : List Item} {stored : List StoredElement}
    (h : p.Lowers indexWidth k actions r items stored t)
    (hresults : ∀ k, T (resultSignal k) ∧ T (indexSignal k)) (hr : Resting r)
    (hknown : ∀ name ∈ actions.flatMap Action.reads, K name)
    (hbound : ∀ name ∈ actions.filterMap Action.bound?, T name) :
    Declared K T r t ((actions.flatMap Action.nodes).countP Expr.isConversion) items ∧
      ∀ e ∈ stored, e.value.Below K t.castCount := by
  induction h with
  | nil => exact ⟨⟨hr, rfl, [], rfl, .nil⟩, List.forall_mem_nil _⟩
  | @letIn k name value rest r r₁ r₂ t x casts wire items stored hx hcasts hwire _ ih =>
      rw [List.flatMap_cons, List.forall_mem_append] at hknown
      rw [List.flatMap_cons, List.countP_append]
      have hname : Action.bound? (.letIn name value) = some name := rfl
      rw [List.filterMap_cons_some hname, List.forall_mem_cons] at hbound
      rcases hr.lower hx hknown.1 with ⟨hconverted, hvalue⟩
      have hown : Declared K T r r₂ _ casts := .of_declareCasts hconverted hr hcasts
      rcases ih hown.resting hknown.2 hbound.2 with ⟨hmore, hstored⟩
      rw [hconverted.castCount, ← hown.castCount] at hvalue
      rw [Body.net_eq hwire, List.append_assoc]
      have hassign : Flows K T r₂.castCount []
          [.wire name value.type.width, .assign (.ref name) x] :=
        .wire (.assignTo hbound.1 hvalue .nil)
      exact ⟨hown.trans (hmore.behind hassign), hstored⟩
  | @output k stencil args value rest r r₁ r₂ r₃ t x l casts items stored _ hx hl hcasts _ ih =>
      rw [List.flatMap_cons, List.forall_mem_append] at hknown
      rw [List.flatMap_cons, List.countP_append]
      rcases hr.store hx hl hcasts hknown.1 with ⟨hown, hvalue, hplace⟩
      rcases ih hown.resting hknown.2 hbound with ⟨hmore, hstored⟩
      have hindex : (placeIndex indexWidth l.place).Below K r₃.castCount := by
        cases hflat : l.place with
        | fixed flat => exact .of_mentions_nil rfl
        | computed flat => exact hplace flat hflat
      have hresult : Flows K T r₃.castCount [] (result k x (placeIndex indexWidth l.place)) :=
        .assignTo (hresults k).1 hvalue (.assignTo (hresults k).2 hindex .nil)
      rw [List.append_assoc]
      exact ⟨hown.trans (hmore.behind hresult), hstored⟩
  | @kept k stencil args value rest r r₁ r₂ r₃ t x l flat casts items stored _ _ hx hl _ hcasts _
      ih =>
      rw [List.flatMap_cons, List.forall_mem_append] at hknown
      rw [List.flatMap_cons, List.countP_append]
      rcases hr.store hx hl hcasts hknown.1 with ⟨hown, hvalue, _⟩
      rcases ih hown.resting hknown.2 hbound with ⟨hmore, hstored⟩
      -- The value is used at the end of the body, when more wires have been declared.
      have hfirst : x.Below K t.castCount := by
        rw [hmore.castCount]
        exact hvalue.mono (Nat.le_add_right ..)
      exact ⟨hown.trans hmore, List.forall_mem_cons.mpr ⟨hfirst, hstored⟩⟩

/-- The wires of the local stencils, -/
theorem flows_localDeclarations {n : Nat} {items : List Item}
    (h : p.localDeclarations = .ok items) : Flows K T n [] items := by
  refine .join (List.forall_mem_map.mpr fun l _ own hown => ?_) h
  rcases Fallible.bind_ok.mp hown with ⟨width, _, hwire⟩
  rw [(Body.wire_ok hwire).2]
  exact .wire .nil

/-- and their drivers, which mention what is stored into them. -/
theorem flows_localDrivers {n : Nat} {stored : List StoredElement} {items : List Item}
    (h : Body.join (p.stencils.map (localDrivers stored)) = .ok items)
    (hstored : ∀ e ∈ stored, e.value.Below K n) (hlocals : ∀ l ∈ p.stencils, T l.name) :
    Flows K T n [] items := by
  refine .join (List.forall_mem_map.mpr fun l hl own hown => ?_) h
  rcases Fallible.bind_ok.mp hown with ⟨count, _, hmap⟩
  refine .of_assigns fun i hi => ?_
  rcases exists_of_forall₂ (Fallible.mapM_ok hmap).flip hi with ⟨flat, _, hflat⟩
  rcases Fallible.bind_ok.mp hflat with ⟨low, _, hpure⟩
  refine ⟨_, _, (Except.ok.inj hpure).symm, ?_, ?_⟩
  · rintro _ ⟨⟩
    exact hlocals l hl
  · cases hvalue : storedValue? stored l.name flat with
    | none => exact .of_mentions_nil rfl
    | some x =>
        rcases Option.map_eq_some_iff.mp hvalue with ⟨e, he, rfl⟩
        exact hstored e (List.mem_reverse.mp (List.mem_of_find?_eq_some he))

/-- The targets of a datapath that are no wires of conversions, or have the name of one that a
    kernel has chosen. -/
def Assigns (p : StagePlan) (name : String) : Prop :=
  name ∈ p.stencils.map LocalStencil.name ++ p.actions.filterMap Action.bound? ∨
    ∀ i, name ≠ castName i

/-- Names that begin otherwise are no names of conversions. -/
theorem assigns_of_stem {name : String} (beginning : String)
    (hname : stem name = beginning.toList) (hbeginning : beginning ≠ "cast_") :
    p.Assigns name := by
  refine .inr ?_
  rintro i rfl
  have hcast : castName i = (Frame.mk "cast_" "").name i := String.append_empty.symm
  rw [hcast, Frame.stem_name (by decide)] at hname
  exact hbeginning (String.toList_inj.mp hname).symm

theorem assigns_result (k : Nat) : p.Assigns (resultSignal k) ∧ p.Assigns (indexSignal k) := by
  have hresult : resultSignal k = (Frame.mk "result_" "").name k := String.append_empty.symm
  have hindex : indexSignal k = (Frame.mk "index_" "").name k := String.append_empty.symm
  rw [hresult, hindex]
  exact ⟨assigns_of_stem "result_" (Frame.stem_name (by decide)) (by decide),
    assigns_of_stem "index_" (Frame.stem_name (by decide)) (by decide)⟩

/-- The body of a datapath declares its conversions before it uses them. -/
theorem declared_datapathBody {t : LoweringState} {items : List Item}
    (h : Returns p.datapathBody .initial items t) :
    Declared (· ∈ p.reads) p.Assigns .initial t p.conversions items := by
  rcases datapathBody_parts h with
    ⟨declarations, _, body, stored, drivers, commit, casts, r, s, hdeclarations, _, hlowers,
      hdrivers, hcommit, hcasts, rfl⟩
  have hbound : ∀ name ∈ p.actions.filterMap Action.bound?, p.Assigns name := fun _ h =>
    .inl (List.mem_append_right _ h)
  have hlocals : ∀ l ∈ p.stencils, p.Assigns l.name := fun _ h =>
    .inl (List.mem_append_left _ (List.mem_map_of_mem h))
  rcases hlowers.declared (K := (· ∈ p.reads)) assigns_result ⟨rfl, rfl⟩
    (fun _ h => List.mem_append_left _ h) hbound with ⟨hactions, hstored⟩
  -- The condition is lowered behind the actions, and its conversions come behind the drivers.
  have hguard : Converted (· ∈ p.reads) r s
      ((p.writeGuard.toList.flatMap Expr.nodes).countP Expr.isConversion) ∧
        commit.Below (· ∈ p.reads) s.castCount := by
    unfold commitValue at hcommit
    split at hcommit
    · next guard hguard =>
      have hread : ∀ name ∈ guard.reads [], name ∈ p.reads := by
        intro name hname
        rw [reads, hguard, Option.toList_some, List.flatMap_singleton]
        exact List.mem_append_right _ hname
      rw [hguard, Option.toList_some, List.flatMap_singleton]
      exact hactions.resting.lower hcommit hread
    · next hguard =>
      rcases returns_pure.mp hcommit with ⟨rfl, rfl⟩
      rw [hguard]
      exact ⟨.refl _, .of_mentions_nil rfl⟩
  have hlast : Declared (· ∈ p.reads) p.Assigns r t _ casts :=
    .of_declareCasts hguard.1 hactions.resting hcasts
  have hassign : Flows (· ∈ p.reads) p.Assigns t.castCount []
      [.assign (.ref "commit") commit] := by
    refine .assignTo (assigns_of_stem "commit" rfl (by decide)) ?_ .nil
    rw [hlast.castCount, ← hguard.1.castCount]
    exact hguard.2
  have hall := (hactions.behind (flows_localDeclarations hdeclarations)).trans
    ((hlast.behind (flows_localDrivers hdrivers hstored hlocals)).followed hassign)
  rw [← List.countP_append, ← nodes, ← conversions] at hall
  simpa only [List.append_assoc] using hall

/-- Each conversion of a body has a wire, and the wires are declared in turn, with their drivers.
    A wire is declared once, and assigned to once, just if no name from the kernel is its name.
    Unless the expressions of the body read a signal of that name, it is mentioned neither in its
    own value and in earlier ones nor anywhere else before it is declared. -/
theorem conversions_of_makeDatapath {w w' : Workshop} {name : String}
    (h : Returns p.makeDatapath w name w') : ∃ (m : Module) (wires : List CastWire),
      m.name = name ∧ p.datapathPorts = .ok m.ports ∧
      (p.datapathBody.run.run .initial).1 = .ok m.body ∧
      wires.map CastWire.name = (List.range p.conversions).map castName ∧
      (wires.flatMap CastWire.items).Sublist m.body ∧
      (∀ i ∈ m.body, (∃ name width, i = .wire name width) ∨
        ∃ target value, i = .assign target value) ∧
      ∀ (i : Nat) (hi : i < wires.length),
        (m.names.count (castName i) = 1 ↔ castName i ∉ p.datapathVocabulary.chosen) ∧
        (castName i ∉ p.datapathVocabulary.chosen →
          (m.body.flatMap Item.targets).count (castName i) = 1) ∧
        (∀ j ≥ i, castName j ∉ p.reads → castName j ∉ wires[i].value.mentions) ∧
        (castName i ∉ p.reads → ∀ before target value after,
          m.body = before ++ .assign target value :: after → castName i ∈ value.mentions →
            .wire (castName i) wires[i].width ∈ before) := by
  rcases returns_lift_bind.mp h with ⟨ports, hports, h⟩
  rcases returns_lift_bind.mp h with ⟨body, hbody, h⟩
  rcases returns_bind.mp h with ⟨_, _, _, h⟩
  rcases returns_pure.mp h with ⟨rfl, _⟩
  have hdeclared := declared_datapathBody (returns_of_run hbody)
  rcases hdeclared.flows with ⟨wires, hlength, hflows⟩
  have hstart : LoweringState.initial.castCount = 0 := rfl
  have hcount : p.castCount = p.conversions := hdeclared.castCount.trans (Nat.zero_add _)
  have hnames : wires.map CastWire.name = (List.range p.conversions).map castName := by
    rw [hflows.names, hlength, List.range_eq_range', hstart]
  refine ⟨⟨p.datapathName, ports, body⟩, wires, rfl, hports, hbody, hnames, hflows.sublist,
    hflows.kinds, fun i hi => ?_⟩
  -- The wires are numbered in turn, so each one has the name of its own number.
  have hown : wires[i].name = castName i := by
    have hget := List.getElem_of_eq hnames (by rwa [List.length_map])
    rwa [List.getElem_map, List.getElem_map, List.getElem_range] at hget
  have hrange : castName i ∈ (List.range p.conversions).map castName :=
    List.mem_map_of_mem (List.mem_range.mpr (hlength ▸ hi))
  have hmem : castName i ∈ p.datapathVocabulary.generated := by
    simp only [datapathVocabulary, hcount, List.mem_append]
    exact .inr (.inr hrange)
  refine ⟨?_, fun hchosen => ?_, fun j hj hread hmentions => ?_,
    fun hread before target value after hsplit hmentions => ?_⟩
  · rw [Module.names, (names_datapath hports hbody).count_eq, List.count_append,
      List.count_eq_one_of_mem p.nodup_generated_datapath hmem, Nat.add_eq_right,
      List.count_eq_zero]
  -- What no kernel has chosen is assigned as the wire of a conversion or not at all.
  · have hother : ¬p.Assigns (castName i) := by
      rintro (hlocal | hnone)
      · exact hchosen (List.mem_append_right _ hlocal)
      · exact hnone i rfl
    rw [hflows.count_targets hother, hnames]
    exact List.count_eq_one_of_mem (List.nodup_range.map_on fun _ _ _ _ h => castName_injective h)
      hrange
  · rcases hflows.value hi _ hmentions with hknown | ⟨l, hl, hname⟩
    · exact hread hknown
    · rcases castName_injective hname with rfl
      omega
  · rcases hflows.declared hsplit with ⟨k, hbelow, hsub⟩
    rcases hbelow _ hmentions with hknown | ⟨l, hl, hname⟩
    · exact absurd hknown hread
    · rcases castName_injective hname with rfl
      have htaken : wires[i] ∈ wires.take k :=
        List.mem_take_iff_getElem.mpr ⟨i, by omega, rfl⟩
      refine hsub.subset (List.mem_flatMap.mpr ⟨wires[i], htaken, ?_⟩)
      rw [← hown]
      exact List.mem_cons_self ..

/-- Narrows each word, which has a name in between. -/
def narrowing (name : String) : Kernel :=
  ⟨"narrow", [.stream "in.stencil.stream" (.uint 16) [1] [2] false,
    .stream "out.stencil.stream" (.uint 8) [1] [2] true],
    .forLoop "x" 0 2 (.realizeOver "out.stencil" (.uint 8) [1] (.block [
      .readStream "in.stencil.stream" "in.stencil" none,
      .letIn name (.cast (.uint 16) (.stencil "in.stencil" (.uint 16) [.ofInt 0]))
        (.provideOne "out.stencil" (.cast (.uint 8) (.cast (.uint 12) (.var (.uint 16) name)))
          [.ofInt 0]),
      .writeStream "out.stencil.stream" "out.stencil" []]))⟩

/-- The name in between is none of a conversion. -/
theorem conversions_of_makeDatapath_narrowing : ∃ n plan name w',
    Netlist.ofKernel (narrowing "t") = .ok n ∧ n.stagePlans = [plan] ∧
      Returns plan.makeDatapath .empty name w' ∧ ∃ (m : Module) (wires : List CastWire),
        m.name = "Compute_x" ∧ wires.map CastWire.name = ["cast_0", "cast_1", "cast_2"] ∧
        (wires.flatMap CastWire.items).Sublist m.body ∧
        ∀ i < wires.length, m.names.count (castName i) = 1 ∧
          (m.body.flatMap Item.targets).count (castName i) = 1 := by
  have hmade : (Netlist.ofKernel (narrowing "t")).map (fun n => n.stagePlans.map fun plan =>
      ((plan.makeDatapath.run.run .empty).1, plan.conversions,
        decide (∀ i < 3, castName i ∉ plan.datapathVocabulary.chosen)))
      = .ok [(.ok "Compute_x", 3, true)] := by
    decide +kernel
  rcases Fallible.exists_of_map hmade with ⟨n, hn, hplans⟩
  rcases List.map_eq_singleton_iff.mp hplans with ⟨plan, hplan, hparts⟩
  rw [Prod.mk.injEq, Prod.mk.injEq] at hparts
  rcases hparts with ⟨hname, hcount, hchosen⟩
  have hreturns := returns_of_run hname
  rcases conversions_of_makeDatapath hreturns with
    ⟨m, wires, hm, _, _, hnames, hsub, _, hwires⟩
  rw [hcount] at hnames
  -- The wires are numbered from zero, so their number is that of the names.
  have hlength : wires.length = 3 := by simpa using congrArg List.length hnames
  refine ⟨n, plan, _, _, hn, hplan, hreturns, m, wires, hm, hnames, hsub, fun i hi => ?_⟩
  have hfree := of_decide_eq_true hchosen i (hlength ▸ hi)
  exact ⟨(hwires i hi).1.mpr hfree, (hwires i hi).2.1 hfree⟩

/-- If the name in between is that of the first conversion, it is declared and assigned to twice. -/
theorem exists_conversion_declared_twice : ∃ n plan name w',
    Netlist.ofKernel (narrowing "cast_0") = .ok n ∧ n.stagePlans = [plan] ∧
      Returns plan.makeDatapath .empty name w' ∧ plan.conversions = 3 ∧
      ∃ d ∈ w'.library.definitions, d.name = name ∧ d.content.names.count (castName 0) = 2 ∧
        (d.content.body.flatMap Item.targets).count (castName 0) = 2 := by
  have hmade : (Netlist.ofKernel (narrowing "cast_0")).map (fun n => n.stagePlans.map fun plan =>
      (plan.makeDatapath.run.run .empty).1.map fun name => (plan.conversions, decide (
        ∃ d ∈ (plan.makeDatapath.run.run .empty).2.library.definitions, d.name = name ∧
          d.content.names.count (castName 0) = 2 ∧
          (d.content.body.flatMap Item.targets).count (castName 0) = 2)))
      = .ok [.ok (3, true)] := by
    decide +kernel
  rcases Fallible.exists_of_map hmade with ⟨n, hn, hplans⟩
  rcases List.map_eq_singleton_iff.mp hplans with ⟨plan, hplan, hmap⟩
  rcases Fallible.exists_of_map hmap with ⟨name, hname, hparts⟩
  rw [Prod.mk.injEq] at hparts
  exact ⟨n, plan, name, _, hn, hplan, returns_of_run hname, hparts.1, of_decide_eq_true hparts.2⟩

end StagePlan

end StencilRtl
