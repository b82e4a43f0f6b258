import StencilRtl.Proofs.Netlist.KindOrder
import StencilRtl.Proofs.Sharing.Linking
import StencilRtl.Proofs.Sharing.Vocabularies

/-!
# Clashes of Names

When a design declares a name twice.

The library of a design has the parts of all components, with the controller and the datapath of
each stage. Which names meet in a module can be read off the part it was made for. So the design
alone tells all clashes: they are in the top module, in the slave interface, or in a stage, its
controller or its datapath. In all other modules no two names are the same.

Of the names in a stage only a few are compared when a kernel is read. If a loop is called like
a signal that the generator puts into every stage, the stage declares that name twice.

## Main definitions

* `Component.vocabularies`: The vocabularies a component brings in.
* `Netlist.topVocabulary`, `Netlist.vocabularies`: Those of a top module and of a design.
* `Netlist.incrementsOver`: A kernel with a loop of a given name.

## Theorems

* `Part.Made.nodup_iff`: The vocabulary of a part tells whether its module has a clash.
* `Library.Has.inside`: With a stage a library has its controller and its datapath.
* `Netlist.has_of_makeTop`: The library of a design has the parts of its components.
* `Netlist.nodup_names_iff`: No name is declared twice just if all vocabularies are clear.
* `Netlist.exists_declared_twice`: A stage declares a name twice.
-/

namespace StencilRtl

open Rtl

/-- The vocabularies of the modules that are made for a component alone. -/
def Component.vocabularies (c : Component) (registers : RegisterMap) : List Vocabulary :=
  match c.kind with
  | .slaveInterface => [SlaveInterface.vocabulary c registers]
  | .stage p => [p.control.vocabulary, p.datapathVocabulary, p.vocabulary c]
  | _ => []

namespace Netlist

/-- In a top module the signals of ports, wires and instances have chosen names, and so have the
instances. -/
def topVocabulary (n : Netlist) : Vocabulary where
  chosen := (linesOf n.sites).map (fun p => p.1.name p.2) ++ n.components.map Component.instanceName
  generated := [clock, reset]

/-- The vocabularies of the modules that take names from a kernel. -/
def vocabularies (n : Netlist) : List Vocabulary :=
  n.topVocabulary :: n.components.flatMap (·.vocabularies n.registers)

variable {n : Netlist} {w w' : Workshop}

theorem mem_vocabularies_slave {c : Component} (hc : c ∈ n.components)
    (hkind : c.kind = .slaveInterface) :
    SlaveInterface.vocabulary c n.registers ∈ n.vocabularies := by
  refine List.mem_cons_of_mem _ (List.mem_flatMap.mpr ⟨c, hc, ?_⟩)
  rw [Component.vocabularies, hkind]
  exact List.mem_singleton_self _

theorem mem_vocabularies_stage {c : Component} {p : StagePlan} (hc : c ∈ n.components)
    (hkind : c.kind = .stage p) :
    ∀ v ∈ [p.control.vocabulary, p.datapathVocabulary, p.vocabulary c], v ∈ n.vocabularies := by
  intro v hv
  refine List.mem_cons_of_mem _ (List.mem_flatMap.mpr ⟨c, hc, ?_⟩)
  rw [Component.vocabularies, hkind]
  exact hv

/-- The parts of a design have no other vocabularies. -/
theorem clear_of_in {κ : Part} (hκ : κ.In n) (h : ∀ v ∈ n.vocabularies, v.Clear) :
    κ.vocabulary.Clear := by
  cases κ with
  | slave c map =>
      rcases hκ with ⟨hc, hkind, rfl⟩
      exact h _ (mem_vocabularies_slave hc hkind)
  | control c =>
      rcases hκ with ⟨d, hd, p, hkind, rfl⟩
      exact h _ (mem_vocabularies_stage hd hkind _ (by simp [Part.vocabulary]))
  | datapath p =>
      rcases hκ with ⟨d, hd, hkind⟩
      exact h _ (mem_vocabularies_stage hd hkind _ (by simp [Part.vocabulary]))
  | stage c p => exact h _ (mem_vocabularies_stage hκ.1 hκ.2 _ (by simp [Part.vocabulary]))
  | _ => exact ⟨List.nodup_nil, List.forall_mem_nil _⟩

end Netlist

/-- What was made for a part declares no name twice just if the vocabulary of the part is clear. -/
theorem Part.Made.nodup_iff {κ : Part} {l : Library} {d : Definition} (h : κ.Made l d) :
    d.content.names.Nodup ↔ κ.vocabulary.Clear := by
  rcases h.build [] with ⟨ws, hbuild⟩
  exact κ.nodup_of_build _ _ _ hbuild

/-- So the vocabulary of a part is clear if a library has the part and declares no name twice. -/
theorem Library.Has.clear {l : Library} {κ : Part} {name : String} (h : l.Has κ name)
    (hl : ∀ m ∈ l.modules, m.names.Nodup) : κ.vocabulary.Clear := by
  rcases h with ⟨l₀, d, _, hmade, hstarts⟩
  refine hmade.nodup_iff.mp (hl _ (List.mem_map_of_mem ?_))
  exact hstarts.subset (List.mem_append_right _ (List.mem_singleton_self d))

/-- With a stage a library has its controller and its datapath. -/
theorem Library.Has.inside {n : Netlist} {l : Library} {c : Component} {p : StagePlan}
    {name : String} (h : l.Has (.stage c p) name) (hl : l.Grown n) (hn : n.Uniform)
    (hκ : (Part.stage c p).In n) : ∃ controlName datapathName,
      l.Has (.control p.control) controlName ∧ l.Has (.datapath p) datapathName := by
  rcases h with ⟨l₁, d, _, hmade, hstarts⟩
  have hfind : l.find? ((Part.stage c p).moduleName l) = some d := by
    rw [hmade.moduleName_eq hstarts]
    exact Library.find?_of_starts hmade.free hstarts
  rcases hl.made_of_find hn hκ hfind with ⟨l₀, hl₀, hstarts₀, hmade₀⟩
  -- Building the stage again finds the modules in it where they are.
  rcases hmade₀.builds hn hκ hl₀ hstarts₀ hl [] with ⟨_, hbuild⟩
  rcases Part.has_of_stage hn hκ hl hbuild with
    ⟨controlName, datapathName, _, hcontrol, hdatapath, _, _⟩
  exact ⟨controlName, datapathName, hcontrol, hdatapath⟩

namespace Netlist

variable {n : Netlist} {w w' : Workshop}

/-- What is placed for a component declares its wires and its instance. -/
theorem Placement.names {component : Component × Nat} {p : Placed} (h : Placement component p) :
    p.items.filterMap Item.name? = (linesOf (componentSites component)).map
      (fun q => q.1.name q.2) ++ [component.1.instanceName] := by
  rcases h.items with ⟨moduleName, hitems⟩
  rw [hitems, List.filterMap_append, List.filterMap_map]
  simp [Item.name?, Function.comp_def]

/-- The names in the body of a top module are those of its wires, the wires of its instances and
the instances, in another order. -/
theorem names_topItems {placed : List Placed} {resolved : Assignments}
    (hplaced : List.Forall₂ Placement n.ordered placed) :
    ((n.topItems placed resolved).filterMap Item.name?).Perm
      ((linesOf (n.wireSites ++ n.instanceSites)).map (fun p => p.1.name p.2)
        ++ n.components.map Component.instanceName) := by
  have hitems : (n.topItems placed resolved).filterMap Item.name?
      = (linesOf n.wireSites).map (fun p => p.1.name p.2) ++ n.ordered.flatMap fun c =>
        (linesOf (componentSites c)).map (fun p => p.1.name p.2) ++ [c.1.instanceName] :=
    filterMap_topItems hplaced (fun _ _ => rfl) (fun _ _ => rfl) fun _ _ h => h.names
  have hnames : n.components.map Component.instanceName
      = n.components.zipIdx.flatMap fun c => [c.1.instanceName] := by
    rw [← List.map_eq_flatMap, ← Function.comp_def, ← List.map_map, List.zipIdx_map_fst]
  rw [hitems, linesOf_append, List.map_append, instanceSites, linesOf_flatMap, List.map_flatMap,
    hnames, List.append_assoc]
  -- Each instance comes with its own wires, while here the wires of all stand before.
  refine List.Perm.append_left _ ((n.ordered_perm.flatMap_right _).trans ?_)
  exact (List.flatMap_append_perm _ _ _).symm

/-- A top module declares no name twice just if its vocabulary is clear. -/
theorem nodup_top_iff {top : Module} (h : Returns n.makeTop w top w') :
    top.names.Nodup ↔ n.topVocabulary.Clear := by
  rcases makeTop_ok h with ⟨signals, placed, resolved, _, v, _, hsignals, hplaced, _, _, _, rfl⟩
  refine Vocabulary.nodup_iff_clear ?_ (by simp only [topVocabulary]; decide)
  have hports : (Port.common ++ signals.map Port.ofSignal).map Port.name
      = [clock, reset] ++ (linesOf n.portSites).map fun p => p.1.name p.2 := by
    rw [portSignals_ok hsignals, linesOf_portSites, List.map_append, List.map_flatMap,
      List.map_flatMap, List.map_flatMap]
    simp only [List.map_map]
    rfl
  rw [Module.names, hports]
  refine ((names_topItems (placements_ok hplaced)).append_left _).trans
    (List.perm_iff_count.mpr fun name => ?_)
  simp only [topVocabulary, sites, linesOf_append, List.map_append, List.count_append]
  omega

/-- The library of a design has the part that the maker of a component follows. -/
theorem has_of_makeTop {top : Module} {c : Component} {κ : Part} (hn : n.Uniform)
    (h : Returns n.makeTop .empty top w) (hc : c ∈ n.components) (hκ : κ.In n)
    (hm : ∀ index, n.component index = .ok c → Follows (n.makeComponent index) κ) :
    ∃ name, w.library.Has κ name := by
  rcases List.getElem?_of_mem hc with ⟨index, hget⟩
  have hordered : (c, index) ∈ n.ordered :=
    n.ordered_perm.mem_iff.mpr (List.mem_zipIdx_iff_getElem?.mpr hget)
  rcases exists_of_forall₂ (instances_of_makeTop hn h) hordered with ⟨i, _, hnamed, _⟩
  exact ⟨i.1, hnamed.has hn hκ (hm index (component_ok.mpr hget))⟩

/-- It has the parts of its stages. -/
theorem hasStage_of_makeTop {top : Module} {c : Component} {p : StagePlan} (hn : n.Uniform)
    (h : Returns n.makeTop .empty top w) (hc : c ∈ n.components) (hkind : c.kind = .stage p) :
    ∃ name, w.library.Has (.stage c p) name := by
  refine has_of_makeTop hn h hc (show (Part.stage c p).In n from ⟨hc, hkind⟩) fun index hindex => ?_
  rw [makeComponent, lift_ok_bind hindex, hkind]
  exact StagePlan.follows_make c p

/-- If no name is declared twice in the library of a design, the vocabularies of its components
are clear. -/
theorem clear_of_nodup {top : Module} (hn : n.Uniform) (h : Returns n.makeTop .empty top w)
    (hmodules : ∀ m ∈ w.library.modules, m.names.Nodup) {c : Component} (hc : c ∈ n.components) :
    ∀ v ∈ c.vocabularies n.registers, v.Clear := by
  rw [Component.vocabularies]
  cases hkind : c.kind with
  | slaveInterface =>
      have hκ : (Part.slave c n.registers).In n := ⟨hc, hkind, rfl⟩
      have hfollows : ∀ index, n.component index = .ok c →
          Follows (n.makeComponent index) (.slave c n.registers) := by
        intro index hindex
        rw [makeComponent, lift_ok_bind hindex, hkind]
        exact SlaveInterface.follows_make c n.registers
      rcases has_of_makeTop hn h hc hκ hfollows with ⟨name, hhas⟩
      exact List.forall_mem_singleton.mpr (hhas.clear hmodules)
  | stage p =>
      rcases hasStage_of_makeTop hn h hc hkind with ⟨name, hhas⟩
      -- The vocabularies of a stage are those of its control, its datapath and the module around
      -- both.
      rcases hhas.inside (grown_of_makeTop hn h).1 hn ⟨hc, hkind⟩ with
        ⟨controlName, datapathName, hcontrol, hdatapath⟩
      refine List.forall_mem_cons.mpr ⟨hcontrol.clear hmodules, List.forall_mem_cons.mpr
        ⟨hdatapath.clear hmodules, List.forall_mem_singleton.mpr (hhas.clear hmodules)⟩⟩
  -- The other kinds have no vocabulary of their own.
  | _ => exact List.forall_mem_nil _

/-- In the design of a kernel no name is declared twice just if all vocabularies are clear. -/
theorem nodup_names_iff {k : Kernel} {top : Module} (hk : ofKernel k = .ok n)
    (htop : Returns n.makeTop .empty top w) :
    (∀ m ∈ w.library.modules ++ [top], m.names.Nodup) ↔ ∀ v ∈ n.vocabularies, v.Clear := by
  have hn := uniform_of_ofKernel hk
  constructor
  · intro h
    rcases List.forall_mem_append.mp h with ⟨hmodules, hlast⟩
    refine List.forall_mem_cons.mpr ⟨?_, fun v hv => ?_⟩
    · exact (nodup_top_iff htop).mp (hlast top (List.mem_singleton_self top))
    · rcases List.mem_flatMap.mp hv with ⟨c, hc, hv⟩
      exact clear_of_nodup hn htop hmodules hc v hv
  · -- Every module was made for a part, and parts have no other vocabularies.
    intro h
    refine List.forall_mem_append.mpr ⟨List.forall_mem_map.mpr fun d hd => ?_, ?_⟩
    · rcases (grown_of_makeTop hn htop).1.made_of_mem hd with ⟨_, κ, _, _, hκ, hmade⟩
      exact hmade.nodup_iff.mpr (clear_of_in hκ h)
    · exact List.forall_mem_singleton.mpr ((nodup_top_iff htop).mpr (h _ (List.mem_cons_self ..)))

/-- The vocabularies of `increments` are clear. -/
theorem nodup_names_iff_increments : ∃ n top w, ofKernel increments = .ok n ∧
    Returns n.makeTop .empty top w ∧ ∀ m ∈ w.library.modules ++ [top], m.names.Nodup := by
  have hmade : (ofKernel increments).map (fun n => (n.makeTop.run.run .empty).1.map fun _ =>
      decide (∀ v ∈ n.vocabularies, v.Clear)) = .ok (.ok true) := by
    simp only [makeTop_eq]
    decide +kernel
  rcases Fallible.exists_of_map hmade with ⟨n, hn, hmap⟩
  rcases Fallible.exists_of_map hmap with ⟨top, htop, hclear⟩
  have hreturns := returns_of_run htop
  exact ⟨n, top, _, hn, hreturns, (nodup_names_iff hn hreturns).mpr (of_decide_eq_true hclear)⟩

/-- The kernel `increments` with another name for its loop. -/
def incrementsOver (loop : String) : Kernel :=
  { increments with body := match increments.body with
    | .loop _ min extent kind body => .loop loop min extent kind body
    | body => body }

/-- The stage of a loop that is called like one of the signals of a stage declares both. -/
theorem exists_declared_twice : ∃ n top w, ofKernel (incrementsOver "load") = .ok n ∧
    Returns n.makeTop .empty top w ∧
      ∃ m ∈ w.library.modules, m.name = "FB_load" ∧ ¬m.names.Nodup := by
  have hmade : (ofKernel (incrementsOver "load")).map (fun n =>
      (n.makeTop.run.run .empty).1.map fun _ =>
        decide (∃ m ∈ (n.makeTop.run.run .empty).2.library.modules,
          m.name = "FB_load" ∧ ¬m.names.Nodup)) = .ok (.ok true) := by
    simp only [makeTop_eq]
    decide +kernel
  rcases Fallible.exists_of_map hmade with ⟨n, hn, hmap⟩
  rcases Fallible.exists_of_map hmap with ⟨top, htop, htwice⟩
  exact ⟨n, top, _, hn, returns_of_run htop, of_decide_eq_true htwice⟩

end Netlist

end StencilRtl
