import StencilRtl.Hardware.Top
import StencilRtl.Proofs.Netlist.Resolution
import StencilRtl.Proofs.Rtl.Declarations

/-!
# The Parts of a Top Module

What a top module declares, drives and instantiates.

A top module is put together from three kinds of sites and from the assignments of the
design. `Assembled` says what has come of them without any reference to how it was
done: each line of each site is declared once, the inputs are those of the ports, every
instance is connected line by line, the assignments are the resolved ones, and every
line that has to be assigned is. Instances are made kind by kind, so the declarations
are those of the sites in another order.

## Main definitions

* `Rtl.Module.inputs`, `Rtl.Item.targets`: What drives the signals of a module.
* `Netlist.Assembled`: A module is put together from the parts of a design.

## Theorems

* `Netlist.makeTop_ok`: What goes into a top module.
* `Netlist.assembled_of_makeTop`: A top module is assembled from its design.
-/

namespace StencilRtl

namespace Rtl

/-- The signals that are given to a module from outside. -/
def Module.inputs (m : Module) : List String :=
  (m.ports.filter fun p => p.direction = .input).map Port.name

/-- The signals an item assigns to. -/
def Item.targets : Item → List String
  | .assign target _ => target.target?.toList
  | .process _ body => Stmt.targetsOfAll body
  | .wire _ _ => []
  | .reg _ _ => []
  | .memory _ _ _ => []
  | .submodule _ _ _ => []

/-- Bodies put together are the items of all of them, one after the other. -/
theorem Body.join_eq {α : Type} {f : α → Body} {g : α → List Item} {xs : List α}
    {items : List Item} (hf : ∀ x ∈ xs, ∀ own, f x = .ok own → own = g x)
    (h : Body.join (xs.map f) = .ok items) : items = xs.flatMap g := by
  induction xs generalizing items with
  | nil => exact (Except.ok.inj h).symm
  | cons x rest ih =>
      rcases Fallible.bind_ok.mp h with ⟨own, hown, h⟩
      rcases Fallible.bind_ok.mp h with ⟨more, hmore, h⟩
      rw [← Except.ok.inj h, List.flatMap_cons, hf x (List.mem_cons_self ..) own hown,
        ih (fun y hy => hf y (List.mem_cons_of_mem _ hy)) hmore]

/-- Declarations that could be made. -/
theorem Body.join_wires {signals : List Signal} {name : Signal → String} {items : List Item}
    (h : Body.join (signals.map fun s => Body.wire (name s) s.width) = .ok items) :
    items = signals.map fun s => .wire (name s) s.width := by
  rw [List.map_eq_flatMap]
  exact Body.join_eq (fun s _ own hown => (Body.wire_ok hown).2) h

end Rtl

namespace Site

/-- The declaration of a line of a site. -/
def declared (s : Site) (l : Line) : String × Nat := (s.name l, l.width)

end Site

namespace Netlist

open Rtl

variable {n : Netlist}

/-- The signals of an instance, each under its own name and with the wire it is connected
    to. -/
def componentConnections (c : Component) : List (String × Rtl.Expr) :=
  c.ports.flatMap fun (name, shape, _) => shape.lines.map fun l =>
    (name ++ l.ending, .ref (c.instanceName ++ "_" ++ name ++ l.ending))

/-- A module is put together from the parts of a design and its assignments. -/
structure Assembled (n : Netlist) (resolved : Assignments) (m : Module) : Prop where
  valid : n.validate = .ok ()
  resolve : ∃ warnings, n.resolve = .ok (resolved, warnings)
  declares : m.signals.Perm
    ((clock, 1) :: (reset, 1) :: (linesOf n.sites).map fun p => p.1.declared p.2)
  inputs : m.inputs = clock :: reset ::
    ((linesOf n.portSites).filter fun p => p.1.incoming p.2).map fun p => p.1.name p.2
  assigns : ∀ target value, .assign target value ∈ m.body ↔
    ∃ p ∈ resolved, target = .ref p.1 ∧ value = driverValue p.2
  targets : m.body.flatMap Item.targets = resolved.targets
  sinks : ∀ p ∈ linesOf (n.portSites ++ n.instanceSites), p.1.incoming p.2 = false →
    p.1.name p.2 ∈ resolved.targets
  instances : ∀ c ∈ n.components, ∃ moduleName, .submodule moduleName c.instanceName
    (commonConnections ++ componentConnections c) ∈ m.body

/-- The signals of some ports that have a shape. -/
theorem mapM_signals_ok {ports : List (String × Shape × Direction)} {signals : List (List Signal)}
    (h : ports.mapM (fun (name, shape, port) => shape.signals name port) = .ok signals) :
    signals.flatten = ports.flatMap fun (name, shape, port) =>
      shape.lines.map fun l => l.signal name port := by
  rw [List.flatMap_def]
  exact congrArg List.flatten (Fallible.mapM_eq_map (fun _ _ _ hp => Shape.signals_ok hp) h)

theorem linesOf_append (xs ys : List Site) : linesOf (xs ++ ys) = linesOf xs ++ linesOf ys :=
  List.flatMap_append

/-- The declarations of the wires. -/
theorem wireDeclarations_ok {declarations : List Item}
    (h : n.wireDeclarations = .ok declarations) :
    declarations = (linesOf n.wireSites).map fun p => .wire (p.1.name p.2) p.2.width := by
  have hitems := Body.join_eq (g := fun wire : String × Shape =>
    wire.2.lines.map fun l => .wire (wire.1 ++ l.ending) l.width) (fun wire _ own hown => ?_) h
  · rw [hitems, linesOf, wireSites, List.flatMap_map, List.map_flatMap]
    exact List.flatMap_congr fun wire _ => by rw [List.map_map]; rfl
  · rcases Fallible.bind_ok.mp hown with ⟨signals, hsignals, hwires⟩
    rw [Body.join_wires hwires, Shape.signals_ok hsignals, List.map_map]
    rfl

/-- What has been placed for a component. -/
structure Placement (component : Component × Nat) (p : Placed) : Prop where
  items : ∃ moduleName, p.items
    = ((linesOf (componentSites component)).map fun q => .wire (q.1.name q.2) q.2.width)
      ++ [.submodule moduleName component.1.instanceName
        (commonConnections ++ componentConnections component.1)]
  sinks : p.sinks = ((linesOf (componentSites component)).filter fun q =>
    !q.1.incoming q.2).map fun q => q.1.name q.2

/-- The lines of the sites of a component, by its ports. -/
theorem linesOf_componentSites (component : Component × Nat) :
    linesOf (componentSites component) = component.1.ports.flatMap fun (name, shape, port) =>
      shape.lines.map fun l => (⟨.port component.2 name, component.1.instanceName ++ "_" ++ name,
        shape, some port⟩, l) := by
  rw [linesOf, componentSites, List.flatMap_map]

theorem linesOf_flatMap {α : Type} (f : α → List Site) (xs : List α) :
    linesOf (xs.flatMap f) = xs.flatMap fun x => linesOf (f x) := List.flatMap_assoc

theorem instanceWire_signal {c : Component} {l : Line} {name : String} {port : Direction} :
    instanceWire c (l.signal name port) = c.instanceName ++ "_" ++ name ++ l.ending := by
  rw [instanceWire, Line.signal, ← String.append_assoc]

theorem not_input (d : Direction) : decide (d = .input) = !decide (d = .output) := by
  cases d <;> rfl

/-- Placing a component is making its module and wiring an instance of it. -/
theorem place_ok (component : Component × Nat)
    (hcomponent : n.component component.2 = .ok component.1) {w w' : Workshop} {p : Placed}
    (h : Returns (n.place component.2) w p w') : ∃ moduleName,
      Returns (n.makeComponent component.2) w moduleName w' ∧ p.items
        = ((linesOf (componentSites component)).map fun q => .wire (q.1.name q.2) q.2.width)
          ++ [.submodule moduleName component.1.instanceName
            (commonConnections ++ componentConnections component.1)] ∧
      p.sinks = ((linesOf (componentSites component)).filter fun q =>
        !q.1.incoming q.2).map fun q => q.1.name q.2 := by
  rcases component with ⟨c, index⟩
  -- The maker, then the signals of the ports, then a wire for each of them.
  rcases returns_lift_bind.mp h with ⟨c', hc', h⟩
  rcases Except.ok.inj (hcomponent.symm.trans hc') with rfl
  rcases returns_bind.mp h with ⟨moduleName, r, hmake, h⟩
  rcases returns_lift_bind.mp h with ⟨signals, hsignals, h⟩
  rcases returns_lift_bind.mp h with ⟨wires, hwires, h⟩
  rcases returns_pure.mp h with ⟨rfl, rfl⟩
  rcases Fallible.bind_ok.mp hsignals with ⟨parts, hparts, hsignals⟩
  rw [← Except.ok.inj hsignals] at hwires ⊢
  rw [mapM_signals_ok hparts] at hwires ⊢
  refine ⟨moduleName, hmake, ?_, ?_⟩
  · rw [Body.join_wires hwires]
    simp only [linesOf_componentSites, componentConnections, List.map_flatMap, List.map_map,
      Function.comp_def, instanceWire_signal]
    rfl
  · rw [linesOf_componentSites]
    simp only [List.filter_flatMap, List.map_flatMap, List.filter_map, List.map_map,
      Function.comp_def, instanceWire_signal]
    refine List.flatMap_congr fun port _ => congrArg (List.map _) ?_
    exact List.filter_congr fun l _ => not_input _

theorem placement_of_place {component : Component × Nat}
    (hcomponent : n.component component.2 = .ok component.1) {w w' : Workshop} {p : Placed}
    (h : Returns (n.place component.2) w p w') : Placement component p := by
  rcases place_ok component hcomponent h with ⟨moduleName, _, hitems, hsinks⟩
  exact ⟨⟨moduleName, hitems⟩, hsinks⟩

/-- What is said of a list of results by what is said of each of them. -/
theorem flatMap_eq_of_forall₂ {α β γ : Type} {R : α → β → Prop} {f : β → List γ} {g : α → List γ}
    {xs : List α} {ys : List β} (h : List.Forall₂ R xs ys) (hR : ∀ x y, R x y → f y = g x) :
    ys.flatMap f = xs.flatMap g := by
  induction h with
  | nil => rfl
  | cons hxy _ ih => rw [List.flatMap_cons, List.flatMap_cons, hR _ _ hxy, ih]

/-- The components in the order in which they are placed. -/
def ordered (n : Netlist) : List (Component × Nat) :=
  n.components.zipIdx.mergeSort fun a b => a.1.kind.rank ≤ b.1.kind.rank

theorem ordered_perm (n : Netlist) : n.ordered.Perm n.components.zipIdx := List.mergeSort_perm _ _

/-- Every component is placed. -/
theorem placements_ok {placed : List Placed} {w w' : Workshop}
    (h : Returns (n.emissionOrder.mapM n.place) w placed w') :
    List.Forall₂ Placement n.ordered placed := by
  have hall := returns_mapM h
  rw [emissionOrder, ← ordered, List.forall₂_map_left_iff] at hall
  have hcomponents : ∀ c ∈ n.ordered, n.component c.2 = .ok c.1 := by
    intro c hc
    rw [component_ok]
    exact List.mem_zipIdx_iff_getElem?.mp (n.ordered_perm.mem_iff.mp hc)
  refine ((List.forall₂_and_left _ _).mpr ⟨hcomponents, hall⟩).imp fun c p hp => ?_
  rcases hp with ⟨hcomponent, r, r', hplace⟩
  exact placement_of_place hcomponent hplace

namespace Placement

variable {component : Component × Nat} {p : Placed} (h : Placement component p)

include h

theorem declares : p.items.filterMap Item.declared?
    = (linesOf (componentSites component)).map fun q => q.1.declared q.2 := by
  rcases h.items with ⟨moduleName, hitems⟩
  rw [hitems, List.filterMap_append, List.filterMap_map]
  simp [Item.declared?, Function.comp_def, Site.declared]

theorem no_targets : ∀ i ∈ p.items, i.targets = [] := by
  rcases h.items with ⟨moduleName, hitems⟩
  intro i hi
  rw [hitems, List.mem_append, List.mem_singleton] at hi
  rcases hi with hi | rfl
  · rcases List.mem_map.mp hi with ⟨q, _, rfl⟩
    rfl
  · rfl

end Placement

/-- The assignments of a top module are the resolved ones, once all sinks have one. -/
theorem assignments_ok {sinks : List String} {resolved : Assignments} {drivers : List Item}
    (h : assignments sinks resolved = .ok drivers) :
    (∀ sink ∈ sinks, sink ∈ resolved.targets) ∧
      drivers = resolved.map fun p => .assign (.ref p.1) (driverValue p.2) := by
  unfold assignments at h
  split at h
  · exact absurd h (by simp [malformed])
  next hnone =>
  refine ⟨fun sink hsink => ?_, (Except.ok.inj h).symm⟩
  have hany := List.find?_eq_none.mp hnone sink hsink
  rw [Bool.not_eq_true', Bool.not_eq_false, List.any_eq_true] at hany
  rcases hany with ⟨p, hp, hsame⟩
  exact of_decide_eq_true hsame ▸ List.mem_map_of_mem hp

section

variable {signals : List Signal} {placed : List Placed} {resolved : Assignments}

/-- The signals of the ports are the lines of their sites. -/
theorem portSignals_ok (h : n.portSignals = .ok signals) :
    signals = n.ports.flatMap fun (name, shape, port) => shape.lines.map fun l =>
      l.signal name port := by
  rcases Fallible.bind_ok.mp h with ⟨parts, hparts, h⟩
  rw [← Except.ok.inj h, mapM_signals_ok hparts]

theorem linesOf_portSites (n : Netlist) :
    linesOf n.portSites = n.ports.flatMap fun (name, shape, port) => shape.lines.map fun l =>
      (⟨.top name, name, shape, some port⟩, l) := by
  rw [linesOf, portSites, List.flatMap_map]

/-- The items of a top module. -/
def topItems (n : Netlist) (placed : List Placed) (resolved : Assignments) : List Item :=
  ((linesOf n.wireSites).map fun p => .wire (p.1.name p.2) p.2.width) ++ placed.flatMap (·.items)
    ++ resolved.map fun p => .assign (.ref p.1) (driverValue p.2)

variable (hplaced : List.Forall₂ Placement n.ordered placed)

include hplaced

/-- What is picked from the items of a top module, if nothing is picked from assignments:
    something from each wire, and what is picked from the instances as they were placed. -/
theorem filterMap_topItems {α : Type} {pick : Item → Option α} {wire : Site → Line → α}
    {parts : Component × Nat → List α}
    (hwire : ∀ s l, pick (.wire (s.name l) l.width) = some (wire s l))
    (hassign : ∀ target value, pick (.assign target value) = none)
    (hparts : ∀ c p, Placement c p → p.items.filterMap pick = parts c) :
    (n.topItems placed resolved).filterMap pick
      = (linesOf n.wireSites).map (fun p => wire p.1 p.2) ++ n.ordered.flatMap parts := by
  have hwires : ((linesOf n.wireSites).map fun p =>
      Item.wire (p.1.name p.2) p.2.width).filterMap pick
      = (linesOf n.wireSites).map fun p => wire p.1 p.2 := by
    rw [List.filterMap_map, ← List.filterMap_eq_map]
    exact List.filterMap_congr fun p _ => hwire p.1 p.2
  have hinstances : (placed.flatMap (·.items)).filterMap pick = n.ordered.flatMap parts := by
    rw [List.filterMap_flatMap]
    exact flatMap_eq_of_forall₂ hplaced fun c p h => hparts c p h
  have hdrivers : (resolved.map fun p => Item.assign (.ref p.1) (driverValue p.2)).filterMap
      pick = [] := by
    rw [List.filterMap_map]
    exact List.filterMap_eq_nil_iff.mpr fun _ _ => hassign _ _
  rw [topItems, List.filterMap_append, List.filterMap_append, hwires, hinstances, hdrivers,
    List.append_nil]

/-- The wires of a top module and those of its instances are declared. -/
theorem declared_topItems : ((n.topItems placed resolved).filterMap Item.declared?).Perm
    ((linesOf (n.wireSites ++ n.instanceSites)).map fun p => p.1.declared p.2) := by
  have hitems : (n.topItems placed resolved).filterMap Item.declared?
      = (linesOf n.wireSites).map (fun p => p.1.declared p.2) ++ n.ordered.flatMap fun c =>
        (linesOf (componentSites c)).map fun p => p.1.declared p.2 :=
    filterMap_topItems hplaced (fun _ _ => rfl) (fun _ _ => rfl) fun _ _ h => h.declares
  rw [hitems, linesOf_append, List.map_append, instanceSites, linesOf_flatMap, List.map_flatMap]
  exact (n.ordered_perm.flatMap_right _).append_left _

/-- The items of an instance drive nothing. -/
theorem placed_targets {i : Item} (h : i ∈ placed.flatMap (·.items)) : i.targets = [] := by
  rcases List.mem_flatMap.mp h with ⟨p, hp, hi⟩
  rcases exists_of_forall₂ hplaced.flip hp with ⟨c, _, hplacement⟩
  exact hplacement.no_targets i hi

/-- Only the assignments drive anything. -/
theorem targets_topItems :
    (n.topItems placed resolved).flatMap Item.targets = resolved.targets := by
  have hinstances : (placed.flatMap (·.items)).flatMap Item.targets = [] :=
    List.flatMap_eq_nil_iff.mpr fun _ => placed_targets hplaced
  have hwires : ((linesOf n.wireSites).map fun p =>
      Item.wire (p.1.name p.2) p.2.width).flatMap Item.targets = [] := by
    rw [List.flatMap_map]
    exact List.flatMap_eq_nil_iff.mpr fun _ _ => rfl
  rw [topItems, List.flatMap_append, List.flatMap_append, hwires, hinstances, List.flatMap_map,
    Assignments.targets, List.map_eq_flatMap]
  rfl

/-- The assignments of a top module are the resolved ones. -/
theorem assign_mem_topItems {target value : Rtl.Expr} :
    .assign target value ∈ n.topItems placed resolved
      ↔ ∃ p ∈ resolved, target = .ref p.1 ∧ value = driverValue p.2 := by
  -- Instances and declarations are no assignments.
  have hinstances : .assign target value ∉ placed.flatMap (·.items) := by
    intro h
    rcases List.mem_flatMap.mp h with ⟨p, hp, hi⟩
    rcases exists_of_forall₂ hplaced.flip hp with ⟨c, _, hplacement⟩
    rcases hplacement.items with ⟨moduleName, hitems⟩
    rw [hitems] at hi
    simp at hi
  have hwires : .assign target value ∉ (linesOf n.wireSites).map fun p =>
      Item.wire (p.1.name p.2) p.2.width := by
    intro h
    rcases List.mem_map.mp h with ⟨p, _, hp⟩
    exact absurd hp (by simp)
  refine ⟨fun h => ?_, fun ⟨p, hp, htarget, hvalue⟩ => ?_⟩
  · rcases List.mem_append.mp h with h | h
    · exact ((List.mem_append.mp h).elim hwires hinstances).elim
    · rcases List.mem_map.mp h with ⟨p, hp, hassign⟩
      rw [Item.assign.injEq] at hassign
      exact ⟨p, hp, hassign.1.symm, hassign.2.symm⟩
  · rw [htarget, hvalue]
    exact List.mem_append_right _ (List.mem_map_of_mem hp)

/-- Every component has an instance. -/
theorem submodule_mem_topItems {c : Component} (hc : c ∈ n.components) : ∃ moduleName,
    .submodule moduleName c.instanceName (commonConnections ++ componentConnections c)
      ∈ n.topItems placed resolved := by
  rcases List.getElem?_of_mem hc with ⟨index, hget⟩
  have hmem : (c, index) ∈ n.ordered :=
    n.ordered_perm.mem_iff.mpr (List.mem_zipIdx_iff_getElem?.mpr hget)
  rcases exists_of_forall₂ hplaced hmem with ⟨p, hp, hplacement⟩
  rcases hplacement.items with ⟨moduleName, hitems⟩
  refine ⟨moduleName, List.mem_append_left _ (List.mem_append_right _ ?_)⟩
  refine List.mem_flatMap.mpr ⟨p, hp, ?_⟩
  rw [hitems]
  exact List.mem_append_right _ (List.mem_singleton_self _)

/-- What has to be assigned are the lines of ports and instances that do not come in. -/
theorem mem_sinks {p : Site × Line} (hp : p ∈ linesOf (n.portSites ++ n.instanceSites))
    (houtgoing : p.1.incoming p.2 = false)
    (hsignals : n.portSignals = .ok signals) :
    p.1.name p.2 ∈ ((signals.filter fun s => s.direction = .output).map Signal.name)
      ++ placed.flatMap (·.sinks) := by
  rw [linesOf_append, List.mem_append] at hp
  rcases hp with hp | hp
  · refine List.mem_append_left _ ?_
    -- A line of a port goes out of the design, so it is one of the outputs of the top module.
    rw [linesOf_portSites] at hp
    rcases List.mem_flatMap.mp hp with ⟨port, hport, hline⟩
    rcases List.mem_map.mp hline with ⟨l, hl, rfl⟩
    refine List.mem_map.mpr ⟨l.signal port.1 port.2.2, List.mem_filter.mpr ⟨?_, ?_⟩, rfl⟩
    · rw [portSignals_ok hsignals]
      exact List.mem_flatMap.mpr ⟨port, hport, List.mem_map_of_mem hl⟩
    · change decide (l.direction port.2.2 = .input) = false at houtgoing
      rw [not_input, Bool.not_eq_false'] at houtgoing
      exact houtgoing
  · refine List.mem_append_right _ ?_
    -- A line of an instance goes into it, and its placement has recorded that.
    rw [instanceSites, linesOf_flatMap] at hp
    rcases List.mem_flatMap.mp hp with ⟨c, hc, hline⟩
    rcases exists_of_forall₂ hplaced (n.ordered_perm.mem_iff.mpr hc) with ⟨q, hq, hplacement⟩
    refine List.mem_flatMap.mpr ⟨q, hq, ?_⟩
    rw [hplacement.sinks]
    exact List.mem_map.mpr ⟨p, List.mem_filter.mpr ⟨hline, by rw [houtgoing]; rfl⟩, rfl⟩

end

/-- What goes into a top module: the components are placed one after the other, and what is done
besides leaves the library alone. -/
theorem makeTop_ok {m : Module} {w w' : Workshop} (h : Returns n.makeTop w m w') :
    ∃ signals placed resolved warnings v, n.validate = .ok () ∧ n.portSignals = .ok signals ∧
      Returns (n.emissionOrder.mapM n.place) w placed v ∧ w'.library = v.library ∧
      n.resolve = .ok (resolved, warnings) ∧
      (∀ sink ∈ ((signals.filter fun s => s.direction = .output).map Signal.name)
        ++ placed.flatMap (·.sinks), sink ∈ resolved.targets) ∧
      m = ⟨n.name, Port.common ++ signals.map Port.ofSignal, n.topItems placed resolved⟩ := by
  rcases returns_lift_bind.mp h with ⟨_, hvalid, h⟩
  rcases returns_lift_bind.mp h with ⟨signals, hsignals, h⟩
  rcases returns_lift_bind.mp h with ⟨declarations, hdeclarations, h⟩
  rcases returns_bind.mp h with ⟨placed, v, hplaced, h⟩
  rcases returns_lift_bind.mp h with ⟨⟨resolved, warnings⟩, hresolve, h⟩
  rcases returns_bind.mp h with ⟨_, v', hwarn, h⟩
  rcases returns_lift_bind.mp h with ⟨drivers, hdrivers, h⟩
  rcases returns_pure.mp h with ⟨rfl, rfl⟩
  rcases wireDeclarations_ok hdeclarations with rfl
  rcases assignments_ok hdrivers with ⟨hsinks, rfl⟩
  rw [returns_modify.mp hwarn]
  exact ⟨signals, placed, resolved, warnings, v, hvalid, hsignals, hplaced, rfl, hresolve, hsinks,
    rfl⟩

/-- A top module is assembled from its design. -/
theorem assembled_of_makeTop {m : Module} {w w' : Workshop} (h : Returns n.makeTop w m w') :
    ∃ resolved, n.Assembled resolved m := by
  rcases makeTop_ok h with ⟨signals, placed, resolved, warnings, v, hvalid, hsignals, hplaced, _,
    hresolve, hsinks, rfl⟩
  rcases portSignals_ok hsignals with rfl
  have hplacements := placements_ok hplaced
  refine ⟨resolved, ?_⟩
  exact {
    valid := hvalid
    resolve := ⟨warnings, hresolve⟩
    declares := by
      -- The signals of the module are those of its ports and those declared for the sites.
      have hports : (Port.common ++ (n.ports.flatMap fun (name, shape, port) =>
          shape.lines.map fun l => l.signal name port).map Port.ofSignal).map
            (fun p => (p.name, p.width))
          = (clock, 1) :: (reset, 1) ::
            (linesOf n.portSites).map fun p => p.1.declared p.2 := by
        rw [linesOf_portSites, List.map_append, List.map_flatMap, List.map_flatMap,
          List.map_flatMap]
        simp only [List.map_map]
        rfl
      have hsites : linesOf n.sites = linesOf n.portSites
          ++ linesOf (n.wireSites ++ n.instanceSites) := by
        rw [sites, List.append_assoc, linesOf_append]
      rw [Module.signals_eq, hports, hsites, List.map_append]
      exact (((declared_topItems hplacements).append_left _).cons _).cons _
    inputs := by
      rw [linesOf_portSites, Module.inputs, List.filter_append, List.map_append]
      simp only [List.filter_map, List.filter_flatMap, List.map_flatMap, List.map_map]
      rfl
    assigns := fun _ _ => assign_mem_topItems hplacements
    targets := targets_topItems hplacements
    sinks := fun p hp houtgoing => hsinks _ (mem_sinks hplacements hp houtgoing hsignals)
    instances := fun c hc => submodule_mem_topItems hplacements hc }

end Netlist

end StencilRtl
