import StencilRtl.Proofs.Sharing.Instances
import StencilRtl.Proofs.Sharing.Printing

/-!
# Linking of Modules

Every instance in a design finds the module it is an instance of.

The text of a design links if each instance names a module that stands before it and
connects the ports of that module as they are. The ports are those of the module that has
been defined under the name, and a name that is found need not have been defined for the
instance at hand. But a library has the module of a part under each name, and the maker that
gave the name to the instance followed the recipe of that part. So the ports are those of
the part, and whether connections go with the ports of a part does not depend on the library
any more.

In the top module the wires of an instance are declared from the ports of its component, so
connections and ports agree line by line. Inside a stage and a line buffer it is the plan
that makes them agree.

## Main definitions

* `Library.Links`: Every instance in a module finds its module in a library.
* `Library.Serves`: An instance stands for a part of a library and is wired to its ports.
* `Netlist.Named`: A name that a component has been given on the way to a library.

## Theorems

* `Library.Grown.follow`: After a maker the library has the part it has followed.
* `Part.has_of_stage`: A library in which a stage is built has the parts inside the stage.
* `Part.serves_of_build`: The instances in the module of a part stand for parts.
* `Library.Grown.links`: Modules of a library link to what was defined before them.
* `Netlist.instances_of_makeTop`: The instances in a top module are those of the components.
* `Netlist.links_of_ofKernel`: All instances in the design of a kernel link.
-/

namespace StencilRtl

open Rtl

/-- An instance in a module stands for a part of a library and is wired to its ports. -/
def Library.Serves (l : Library) (m : Module) (i : String × String × List (String × Rtl.Expr)) :
    Prop :=
  ∃ κ ports, l.Has κ i.1 ∧ κ.ports = .ok ports ∧ Wired m.signals ports i.2.2

/-- Every instance in a module finds its module in a library, and its connections fit. -/
def Library.Links (l : Library) (m : Module) : Prop :=
  ∀ i ∈ m.instances, ∃ d, l.find? i.1 = some d ∧ d.content.name = i.1 ∧ m.Fits d.content i.2.2

section

variable {n : Netlist} {κ : Part} {w w' : Workshop} {name : String}

/-- A maker that follows the recipe of a part leaves a library that has the part. -/
theorem Library.Grown.follow (h : w.library.Grown n) (hn : n.Uniform) (hκ : κ.In n)
    {m : Making String} (hm : Follows m κ) (hmake : Returns m w name w') :
    w'.library.Grown n ∧ w.library.Starts w'.library ∧ w'.library.Has κ name := by
  rcases hm with hrefuses | rfl
  · exact absurd hmake hrefuses.not_returns
  · exact h.make hn hκ (κ.settles hn hκ) hmake

/-- What a library has under a name is the module of a part, with the ports of the part. -/
theorem Library.Has.find? {l : Library} (h : l.Has κ name) : ∃ d, l.find? name = some d ∧
    d.content.name = name ∧ κ.ports = .ok d.content.ports := by
  rcases h with ⟨l₀, d, rfl, hmade, hstarts⟩
  rcases hmade.build [] with ⟨ws, hbuild⟩
  exact ⟨d, Library.find?_of_starts hmade.free hstarts, hmade.content,
    κ.ports_of_build _ _ _ hbuild⟩

namespace Part

/-- Parts without parts inside have no instances in their modules. -/
theorem no_instances (hbuffer : ∀ elem tile window image, κ ≠ .lineBuffer elem tile window image)
    (hstage : ∀ c p, κ ≠ .stage c p) :
    Making.Yields κ.build fun built => built.body.filterMap Item.instance? = [] := by
  cases κ with
  | slave c map =>
      exact .lift_bind fun _ _ => .lift_bind fun _ _ => .lift_bind fun _ hbody =>
        .pure (SlaveInterface.declares_body _ _ _ hbody).2
  | adapter side elem extents storeExtents =>
      exact .lift_bind fun _ _ => .lift_bind fun _ _ => .lift_bind fun _ _ =>
        .lift_bind fun _ _ => .lift_bind fun _ hbody => .pure (Adapter.declares_body _ _ _ _ hbody).2
  | queue elem extents depth =>
      exact .lift_bind fun _ _ => .lift_bind fun _ _ => .lift_bind fun _ _ =>
        .lift_bind fun _ hbody => .pure (Queue.declares_body _ _ _ hbody).2
  | lineBuffer elem tile window image => exact absurd rfl (hbuffer elem tile window image)
  | columns elem tile window image rows cols =>
      refine .lift_bind fun _ _ => .lift_bind fun _ _ => .lift_bind fun body hbody => .pure ?_
      -- The body is known once it is known how many columns are kept.
      rcases Fallible.bind_ok.mp hbody with ⟨kept, hkept, _⟩
      exact (cols.declares_body elem.bits hkept _ hbody).2
  | router elem extents plan =>
      exact .lift_bind fun _ _ => .lift_bind fun _ _ => .lift_bind fun _ hbody =>
        .bind fun _ => .pure (plan.declares_body _ _ hbody).2
  | control c =>
      exact .lift_bind fun _ _ => .lift_bind fun _ hbody => .lift_bind fun _ _ =>
        .pure (c.declares_body _ hbody).2
  | datapath p =>
      exact .lift_bind fun _ _ => .lift_bind fun _ hbody =>
        .pure (StagePlan.names_datapathBody (returns_of_run hbody)).instances
  | assembly elem extents writes =>
      exact .lift_bind fun _ _ => .lift_bind fun _ hbody =>
        .pure (AssemblyPlan.declares_body _ _ hbody).2
  | stage c p => exact absurd rfl (hstage c p)

section

variable {m : Module}

/-- The column stage of a line buffer is there if there is an instance of it. -/
theorem serves_lineBuffer {elem : ElemType} {tile window image : List Nat} (hn : n.Uniform)
    (hw : w.library.Grown n) {header : List String}
    (h : Returns (Part.lineBuffer elem tile window image).build w ⟨header, m.ports, m.body⟩ w') :
    ∀ i ∈ m.instances, w'.library.Serves m i := by
  have hports := ports_of_build _ _ _ _ h
  rcases returns_lift_bind.mp h with ⟨plan, hplan, h⟩
  rcases returns_lift_bind.mp h with ⟨columns, hcolumns, h⟩
  rcases returns_lift_bind.mp h with ⟨stage?, hstage, h⟩
  intro i hi
  rw [m.instances_eq] at hi
  cases stage? with
  -- Without rows there is no column stage to instantiate.
  | none =>
      rcases returns_lift_bind.mp h with ⟨_, _, h⟩
      rcases returns_lift_bind.mp h with ⟨body, hbody, h⟩
      rcases Built.mk.inj (returns_pure.mp h).1 with ⟨_, _, rfl⟩
      rcases Fallible.bind_ok.mp hbody with ⟨kept, hkept, _⟩
      rw [(columns.declares_body elem.bits hkept _ hbody).2] at hi
      exact absurd hi List.not_mem_nil
  | some rows =>
      rcases returns_bind.mp h with ⟨columnName, v, hmake, h⟩
      rcases returns_lift_bind.mp h with ⟨_, _, h⟩
      rcases returns_lift_bind.mp h with ⟨body, hbody, h⟩
      rcases returns_pure.mp h with ⟨hbuilt, rfl⟩
      rcases Built.mk.inj hbuilt with ⟨_, _, rfl⟩
      rcases Fallible.bind_ok.mp hbody with ⟨_, _, hrows⟩
      rcases Fallible.bind_ok.mp hrows with ⟨_, _, hrows⟩
      rcases Body.join_ok hrows _ (List.mem_of_getElem? (i := 1) rfl) with ⟨_, hown, _⟩
      rcases Fallible.bind_ok.mp hown with ⟨kept, hkept, _⟩
      rw [(LineBuffer.declares_rowBody _ _ _ _ hkept _ hbody).2, List.mem_singleton] at hi
      -- The column stage was made before the line buffer, and is in the library since.
      have hhas := (hw.follow hn (κ := .columns elem tile window image rows columns)
        ⟨plan, hplan, hstage, hcolumns⟩ (LineBuffer.follows_makeColumns ..) hmake).2.2
      rcases hhas.find? with ⟨_, _, _, hinner⟩
      rw [hi]
      exact ⟨_, _, hhas, hinner,
        LineBuffer.wired_columns hplan hstage hcolumns hports hbody hinner⟩

/-- When the module of a stage is built, its controller, its datapath and its output assembly are
there. -/
theorem has_of_stage {c : Component} {p : StagePlan} {built : Built} (hn : n.Uniform)
    (hκ : (Part.stage c p).In n) (hw : w.library.Grown n)
    (h : Returns (Part.stage c p).build w built w') :
    ∃ controlName datapathName writerName, w'.library.Has (.control p.control) controlName ∧
      w'.library.Has (.datapath p) datapathName ∧
      w'.library.Has (.assembly p.writer.shape.elem p.writer.shape.extents p.writer.writes)
        writerName ∧ p.body controlName datapathName writerName = .ok built.body := by
  rcases returns_bind.mp h with ⟨controlName, v₁, hcontrol, h⟩
  rcases returns_bind.mp h with ⟨datapathName, v₂, hdatapath, h⟩
  rcases returns_bind.mp h with ⟨writerName, v₃, hwriter, h⟩
  rcases returns_lift_bind.mp h with ⟨_, _, h⟩
  rcases returns_lift_bind.mp h with ⟨body, hbody, h⟩
  rcases returns_pure.mp h with ⟨rfl, rfl⟩
  -- The three modules are made one after the other, and what is made stays.
  rcases hw.follow hn (κ := .control p.control) ⟨c, hκ.1, p, hκ.2, rfl⟩
    (LoopControl.follows_make _) hcontrol with ⟨hv₁, _, hhas₁⟩
  rcases hv₁.follow hn (κ := .datapath p) ⟨c, hκ⟩ (StagePlan.follows_makeDatapath _) hdatapath
    with ⟨hv₂, hstarts₂, hhas₂⟩
  rcases hv₂.follow hn (κ := .assembly p.writer.shape.elem p.writer.shape.extents
    p.writer.writes) trivial (AssemblyPlan.follows_make ((hn.standard c hκ.1).of_stage hκ.2).2)
    hwriter with ⟨_, hstarts₃, hhas₃⟩
  exact ⟨controlName, datapathName, writerName, hhas₁.mono (hstarts₂.trans hstarts₃),
    hhas₂.mono hstarts₃, hhas₃, hbody⟩

/-- The instances in a stage stand for its controller, its datapath and its output assembly. -/
theorem serves_stage {c : Component} {p : StagePlan} (hn : n.Uniform) (hκ : (Part.stage c p).In n)
    (hc : Construction.stageComponent p = .ok c) (hp : p.Proper) (hw : w.library.Grown n)
    {header : List String} (h : Returns (Part.stage c p).build w ⟨header, m.ports, m.body⟩ w') :
    ∀ i ∈ m.instances, w'.library.Serves m i := by
  rcases has_of_stage hn hκ hw h with
    ⟨controlName, datapathName, writerName, hhas₁, hhas₂, hhas₃, hbody⟩
  have hoffers := StagePlan.offers_of_body hc hp (ports_of_build _ _ _ _ h) hbody
  rcases hhas₁.find? with ⟨_, _, _, hports₁⟩
  rcases hhas₂.find? with ⟨_, _, _, hports₂⟩
  rcases hhas₃.find? with ⟨_, _, _, hports₃⟩
  rcases hoffers.wired_controller controlName hports₁ with ⟨_, hitem₁, hwired₁⟩
  rcases hoffers.wired_datapath datapathName hp hports₂ with ⟨_, hitem₂, hwired₂⟩
  rcases hoffers.wired_assembly writerName hports₃ with ⟨_, hitem₃, hwired₃⟩
  -- There are no instances but these three.
  intro i hi
  rw [m.instances_eq, (p.declares_body _ _ _ _ hbody).2, hitem₁, hitem₂, hitem₃] at hi
  simp only [List.filterMap_cons, List.filterMap_nil, Item.instance?, List.mem_cons,
    List.not_mem_nil, or_false] at hi
  rcases hi with rfl | rfl | rfl
  · exact ⟨_, _, hhas₁, hports₁, hwired₁⟩
  · exact ⟨_, _, hhas₂, hports₂, hwired₂⟩
  · exact ⟨_, _, hhas₃, hports₃, hwired₃⟩

/-- All instances in the module of a part find the modules of other parts. -/
theorem serves_of_build (hn : n.Uniform)
    (hstages : ∀ d ∈ n.components, ∀ p, d.kind = .stage p →
      Construction.stageComponent p = .ok d ∧ p.Proper)
    (hκ : κ.In n) (hw : w.library.Grown n) {header : List String}
    (h : Returns κ.build w ⟨header, m.ports, m.body⟩ w') :
    ∀ i ∈ m.instances, w'.library.Serves m i := by
  cases κ with
  | lineBuffer elem tile window image => exact serves_lineBuffer hn hw h
  | stage c p =>
      rcases hstages c hκ.1 p hκ.2 with ⟨hc, hp⟩
      exact serves_stage hn hκ hc hp hw h
  | _ =>
      have hnone := no_instances (by simp) (by simp) _ _ _ h
      rw [m.instances_eq, hnone]
      exact List.forall_mem_nil _

end

end Part

/-- Where names are declared once, instances that stand for parts link. -/
theorem Library.links_of_serves {l : Library} {m : Module} (hm : m.names.Nodup)
    (hl : ∀ d ∈ l.definitions, d.content.names.Nodup)
    (h : ∀ i ∈ m.instances, l.Serves m i) : l.Links m := by
  intro i hi
  rcases h i hi with ⟨κ, ports, hhas, hports, hwired⟩
  rcases hhas.find? with ⟨d, hfind, hname, hports'⟩
  rcases Except.ok.inj (hports.symm.trans hports') with rfl
  exact ⟨d, hfind, hname,
    Module.fits_of_wired hm (hl d (List.mem_of_find?_eq_some hfind)) hwired⟩

/-- The modules of a library link to what was defined before them. -/
theorem Library.Grown.links {l : Library} (h : l.Grown n) (hn : n.Uniform)
    (hstages : ∀ d ∈ n.components, ∀ p, d.kind = .stage p →
      Construction.stageComponent p = .ok d ∧ p.Proper)
    (hl : ∀ d ∈ l.definitions, d.content.names.Nodup) {before after : List Definition}
    {d : Definition} (hd : l.definitions = before ++ d :: after) :
    (⟨before⟩ : Library).Links d.content := by
  have hmem : d ∈ l.definitions := by
    rw [hd]
    exact List.mem_append_right _ (List.mem_cons_self ..)
  rcases h.made_of_mem hmem with ⟨l₀, κ, hl₀, hstarts, hκ, hmade⟩
  -- A name is defined once, so what is before the definition is what it was added to.
  have hbefore : l₀ = ⟨before⟩ := by
    have hfree : (⟨before⟩ : Library).find? d.name = none := by
      have hnodup := h.nodup_names
      rw [Library.names, hd, List.map_append, List.map_cons] at hnodup
      refine List.find?_eq_none.mpr fun e he hsame => ?_
      exact (List.nodup_append.mp hnodup).2.2 _ (List.mem_map_of_mem he) _
        (List.mem_cons_self ..) (of_decide_eq_true hsame)
    rw [← Library.before_eq hmade.free hstarts]
    exact Library.before_eq hfree ⟨after, by simp [hd, Library.add]⟩
  rcases hbefore with rfl
  rcases hmade.build [] with ⟨ws, hbuild⟩
  refine Library.links_of_serves (hl d hmem) (fun e he => hl e ?_)
    (Part.serves_of_build hn hstages hκ hl₀ hbuild)
  rw [hd]
  exact List.mem_append_left _ he

end

namespace Netlist

variable {n : Netlist} {w w' : Workshop}

/-- What is made for a component only adds parts to a library. -/
theorem settles_makeComponent (hn : n.Uniform) (index : Nat) :
    Settles n (n.makeComponent index) := by
  rcases (Makes.component index).follows hn with hrefuses | ⟨κ, hκ, hmake⟩
  · exact fun _ _ _ _ hreturns => absurd hreturns hrefuses.not_returns
  · exact .of_follows (.inr hmake) (.make hn hκ (κ.settles hn hκ))

/-- A name that a component has been given on the way to a library. -/
def Named (n : Netlist) (l : Library) (index : Nat) (name : String) : Prop :=
  ∃ w w' : Workshop, w.library.Grown n ∧ Returns (n.makeComponent index) w name w' ∧
    w'.library.Starts l

namespace Named

variable {l l' : Library} {index : Nat} {name : String}

theorem mono (h : n.Named l index name) (hstarts : l.Starts l') : n.Named l' index name := by
  rcases h with ⟨w, w', hw, hmake, hthere⟩
  exact ⟨w, w', hw, hmake, hthere.trans hstarts⟩

/-- The library has the part that the maker of the component follows under the name. -/
theorem has {κ : Part} (h : n.Named l index name) (hn : n.Uniform) (hκ : κ.In n)
    (hm : Follows (n.makeComponent index) κ) : l.Has κ name := by
  rcases h with ⟨w, w', hw, hmake, hthere⟩
  exact (hw.follow hn hκ hm hmake).2.2.mono hthere

/-- The maker of a component that has a name follows a part for its kind with its ports. -/
theorem exists_part {c : Component} (h : n.Named l index name) (hn : n.Uniform)
    (hindex : n.component index = .ok c) :
    ∃ κ : Part, κ.In n ∧ κ.Implements c.kind ∧ κ.ports = c.modulePorts ∧
      Follows (n.makeComponent index) κ := by
  rcases h with ⟨w, w', _, hmake, _⟩
  have hc := List.mem_of_getElem? (component_ok.mp hindex)
  rcases (hn.standard c hc).follows hindex with hrefuses | ⟨κ, hκ, hkind, hports, hfollow⟩
  · exact absurd hmake hrefuses.not_returns
  · exact ⟨κ, hκ, hkind, hports, .inr hfollow⟩

end Named

/-- What is placed for a component is an instance of the module whose name it is given. -/
theorem place_named {component : Component × Nat} {p : Placed} (hn : n.Uniform)
    (hcomponent : n.component component.2 = .ok component.1) (hw : w.library.Grown n)
    (h : Returns (n.place component.2) w p w') :
    w'.library.Grown n ∧ w.library.Starts w'.library ∧
      ∃ name, n.Named w'.library component.2 name ∧ p.items.filterMap Item.instance?
        = [(name, component.1.instanceName,
            commonConnections ++ componentConnections component.1)] := by
  rcases place_ok component hcomponent h with ⟨name, hmake, hitems, _⟩
  rcases settles_makeComponent hn _ _ _ _ hw hmake with ⟨hw', hstarts, _⟩
  refine ⟨hw', hstarts, name, ⟨w, w', hw, hmake, .refl _⟩, ?_⟩
  rw [hitems, List.filterMap_append, List.filterMap_map]
  simp [Item.instance?, Function.comp_def]

/-- The same of all components. -/
theorem placed_named {components : List (Component × Nat)} {placed : List Placed}
    (hn : n.Uniform) (hcomponents : ∀ c ∈ components, n.component c.2 = .ok c.1)
    (hw : w.library.Grown n)
    (h : Returns ((components.map Prod.snd).mapM n.place) w placed w') :
    w.library.Starts w'.library ∧ List.Forall₂ (fun c i => n.Named w'.library c.2 i.1 ∧
      i.2 = (c.1.instanceName, commonConnections ++ componentConnections c.1)) components
        ((placed.flatMap (·.items)).filterMap Item.instance?) := by
  induction components generalizing w placed with
  | nil =>
      rw [List.map_nil, List.mapM_nil] at h
      rcases returns_pure.mp h with ⟨rfl, rfl⟩
      exact ⟨.refl _, .nil⟩
  | cons c rest ih =>
      rw [List.map_cons, List.mapM_cons] at h
      rcases returns_bind.mp h with ⟨p, v, hplace, h⟩
      rcases returns_bind.mp h with ⟨more, v', hmore, h⟩
      rcases returns_pure.mp h with ⟨rfl, rfl⟩
      rcases List.forall_mem_cons.mp hcomponents with ⟨hc, hrest⟩
      rcases place_named hn hc hw hplace with ⟨hv, hstarts, name, hnamed, hitems⟩
      rcases ih hrest hv hmore with ⟨hstarts', hall⟩
      -- A name stays with its component while the library grows.
      refine ⟨hstarts.trans hstarts', ?_⟩
      rw [List.flatMap_cons, List.filterMap_append, hitems]
      exact .cons ⟨hnamed.mono hstarts', rfl⟩ hall

/-- The instances in a top module are those of the components, in the order in which these are
placed, and each is an instance of the module whose name the component is given. -/
theorem instances_of_makeTop {top : Module} (hn : n.Uniform)
    (h : Returns n.makeTop .empty top w) :
    List.Forall₂ (fun c i => n.Named w.library c.2 i.1 ∧
      i.2 = (c.1.instanceName, commonConnections ++ componentConnections c.1))
        n.ordered top.instances := by
  rcases makeTop_ok h with ⟨_, placed, _, _, v, _, _, hplaced, hlibrary, _, _, htop⟩
  have hinstances : top.instances = (placed.flatMap (·.items)).filterMap Item.instance? := by
    rw [top.instances_eq, htop, topItems, List.filterMap_append, List.filterMap_append,
      List.filterMap_map, List.filterMap_map]
    simp [Item.instance?, Function.comp_def]
  rw [hinstances, hlibrary]
  exact (placed_named hn (fun c hc => component_ok.mpr (List.mem_zipIdx_iff_getElem?.mp
    (n.ordered_perm.mem_iff.mp hc))) .empty hplaced).2

/-- The instance of a component is wired to wires of the top module. -/
theorem Assembled.wired {resolved : Assignments} {top : Module} {c : Component}
    {ports : List Port} (h : n.Assembled resolved top) (hc : c ∈ n.components)
    (hports : c.modulePorts = .ok ports) :
    Wired top.signals ports (commonConnections ++ componentConnections c) := by
  -- All lines of all sites are declared, those of the component among them.
  have hdeclared : ∀ q, q ∈ (clock, 1) :: (reset, 1) ::
      ((linesOf n.sites).map fun p => p.1.declared p.2) → q ∈ top.signals :=
    fun q hq => h.declares.mem_iff.mpr hq
  have hcommon : Wired top.signals Port.common commonConnections :=
    .common (hdeclared _ (List.mem_cons_self ..))
      (hdeclared _ (List.mem_cons_of_mem _ (List.mem_cons_self ..)))
  rw [Component.modulePorts_lines hports]
  refine hcommon.append (.flatMap fun port hport => .map fun l hl => .ref ?_)
  rcases List.getElem?_of_mem hc with ⟨index, hindex⟩
  refine hdeclared _ (List.mem_cons_of_mem _ (List.mem_cons_of_mem _ (List.mem_map.mpr
    ⟨(⟨.port index port.1, c.instanceName ++ "_" ++ port.1, port.2.1, some port.2.2⟩, l), ?_, rfl⟩)))
  rw [sites, linesOf_append, instanceSites, linesOf_flatMap]
  refine List.mem_append_right _ (List.mem_flatMap.mpr
    ⟨(c, index), List.mem_zipIdx_iff_getElem?.mpr hindex, ?_⟩)
  rw [linesOf_componentSites]
  exact List.mem_flatMap.mpr ⟨port, hport, List.mem_map_of_mem hl⟩

/-- An instance in a top module is that of a component, and of the module whose name the component
is given. -/
theorem exists_component {top : Module} {i : String × String × List (String × Rtl.Expr)}
    (hn : n.Uniform) (h : Returns n.makeTop .empty top w) (hi : i ∈ top.instances) :
    ∃ index c, n.component index = .ok c ∧ n.Named w.library index i.1 ∧
      i.2 = (c.instanceName, commonConnections ++ componentConnections c) := by
  rcases exists_of_forall₂ (instances_of_makeTop hn h).flip hi with ⟨c, hc, hnamed, hconnected⟩
  have hget := List.mem_zipIdx_iff_getElem?.mp (n.ordered_perm.mem_iff.mp hc)
  exact ⟨c.2, c.1, component_ok.mpr hget, hnamed, hconnected⟩

/-- The instances of a top module stand for parts. -/
theorem serves_of_makeTop {top : Module} (hn : n.Uniform) (h : Returns n.makeTop .empty top w) :
    ∀ i ∈ top.instances, w.library.Serves top i := by
  rcases assembled_of_makeTop h with ⟨_, hassembled⟩
  intro i hi
  rcases exists_component hn h hi with ⟨index, c, hc, hnamed, hconnected⟩
  rcases hnamed.exists_part hn hc with ⟨κ, hκ, _, hports, hfollow⟩
  have hhas := hnamed.has hn hκ hfollow
  rcases hhas.find? with ⟨d, _, _, hbuilt⟩
  refine ⟨κ, d.content.ports, hhas, hbuilt, ?_⟩
  rw [hconnected]
  exact hassembled.wired (List.mem_of_getElem? (component_ok.mp hc)) (hports.symm.trans hbuilt)

/-- In the design of a kernel in whose modules no name is declared twice all instances link: those
in the top module to modules of the library, and those in a module of the library to modules that
were defined before it. -/
theorem links_of_ofKernel {k : Kernel} {top : Module} (hk : ofKernel k = .ok n)
    (htop : Returns n.makeTop .empty top w)
    (hdistinct : ∀ m ∈ w.library.modules ++ [top], m.names.Nodup) :
    w.library.Links top ∧ ∀ before d after, w.library.definitions = before ++ d :: after →
      (⟨before⟩ : Library).Links d.content := by
  have hn := uniform_of_ofKernel hk
  have hl : ∀ d ∈ w.library.definitions, d.content.names.Nodup := fun d hd =>
    hdistinct _ (List.mem_append_left _ (List.mem_map_of_mem hd))
  refine ⟨Library.links_of_serves (hdistinct top (by simp)) hl (serves_of_makeTop hn htop), ?_⟩
  intro before d after hd
  exact (grown_of_makeTop hn htop).1.links hn (staged_of_ofKernel hk) hl hd

/-- The instances in the modules for `increments` link. -/
theorem links_of_ofKernel_increments : ∃ n top w, ofKernel increments = .ok n ∧
    Returns n.makeTop .empty top w ∧ (∀ m ∈ w.library.modules ++ [top], m.names.Nodup) ∧
      top.instances.length = 6 ∧ w.library.Links top ∧
        ∀ before d after, w.library.definitions = before ++ d :: after →
          (⟨before⟩ : Library).Links d.content := by
  have hmade : (ofKernel increments).map (fun n => (n.makeTop.run.run .empty).1.map fun top =>
      (decide (∀ m ∈ (n.makeTop.run.run .empty).2.library.modules ++ [top], m.names.Nodup),
        top.instances.length)) = .ok (.ok (true, 6)) := by
    simp only [makeTop_eq]
    decide +kernel
  rcases Fallible.exists_of_map hmade with ⟨n, hn, hmap⟩
  rcases Fallible.exists_of_map hmap with ⟨top, htop, hboth⟩
  rcases Prod.mk.inj hboth with ⟨hdistinct, hlength⟩
  have hdistinct := of_decide_eq_true hdistinct
  have hreturns := returns_of_run htop
  rcases links_of_ofKernel hn hreturns hdistinct with ⟨hlinks, hall⟩
  exact ⟨n, top, _, hn, hreturns, hdistinct, hlength, hlinks, hall⟩

end Netlist

end StencilRtl
