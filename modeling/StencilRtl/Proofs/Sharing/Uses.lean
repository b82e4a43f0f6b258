import StencilRtl.Emit.ModuleUses
import StencilRtl.Proofs.Netlist.Interface
import StencilRtl.Proofs.Sharing.Linking

/-!
# Uses of Modules

Whether the uses of modules that are listed are those in the top module.

The list is not read off the top module. It is made beside it, with a library of its own that
takes the components as they come and not kind by kind. So a name in the list and a name in the
top module come from different libraries, and numbers may be given out in another order. What
both have in common is the part that the maker of a component follows. Either library has that
part under the name the component is given there, so both names stand for the same parameters,
and two components share a module of one library just if they share one of the other.

An entry has one kind, that of the component it was opened for. The components that are listed
in it later are given the same name, so they follow the same part, and that is for one kind.

## Main definitions

* `Library.Corresponds`: Names of two libraries that stand for the same.
* `ModuleUse.Lists`: Every component is listed once, and what is listed is in order.
* `ModuleUse.Tells`: An entry has the name and the kind of its components.

## Theorems

* `Library.Has.corresponds`: A part has names that correspond.
* `Netlist.Named.congr`: Components that share a module share one in all libraries.
* `ModuleUse.Lists.record`, `ModuleUse.Tells.record`: What one more instance preserves.
* `Netlist.recorded`: So all instances are listed as they should be.
* `Netlist.uses_of_ofKernel`: The uses that are listed agree with the top module.
-/

namespace StencilRtl

open Rtl

namespace Library

variable {n : Netlist} {l l' : Library} {κ κ' : Part} {name name' : String}

/-- Names of two libraries that stand for modules with the same parameters. Unless such modules
are numbered it is the same name. -/
def Corresponds (l l' : Library) (name name' : String) : Prop :=
  ∃ d d', l.find? name = some d ∧ l'.find? name' = some d' ∧ d.parameters = d'.parameters ∧
    (d.parameters.sameFamily d.parameters = false → name = name')

namespace Has

/-- A library has a part under one name. -/
theorem moduleName_eq (h : l.Has κ name) : κ.moduleName l = name := by
  rcases h with ⟨l₀, d, rfl, hmade, hstarts⟩
  exact hmade.moduleName_eq hstarts

/-- Under that name it has the parameters of the part. -/
theorem exists_parameters (h : l.Has κ name) :
    ∃ d, l.find? name = some d ∧ d.parameters = κ.parameters := by
  rcases h with ⟨l₀, d, rfl, hmade, hstarts⟩
  exact ⟨d, find?_of_starts hmade.free hstarts, hmade.parameters⟩

/-- Under a name it has one part of a design. -/
theorem part_eq (h : l.Has κ name) (h' : l.Has κ' name) (hn : n.Uniform) (hκ : κ.In n)
    (hκ' : κ'.In n) : κ = κ' := by
  -- A number in a name stands for parameters only where a definition has them.
  rcases h'.exists_parameters with ⟨d, hfind, hparams⟩
  have hthere : ¬l.Lacks κ'.parameters :=
    fun hlacks => hlacks d (List.mem_of_find?_eq_some hfind) hparams
  exact Part.eq_of_moduleName hn hκ hκ' hthere (h.moduleName_eq.trans h'.moduleName_eq.symm)

/-- Two libraries that have a part have it under names that correspond. -/
theorem corresponds (h : l.Has κ name) (h' : l'.Has κ name') : l.Corresponds l' name name' := by
  rcases h.exists_parameters with ⟨d, hfind, hparams⟩
  rcases h'.exists_parameters with ⟨d', hfind', hparams'⟩
  refine ⟨d, d', hfind, hfind', hparams.trans hparams'.symm, fun hplain => ?_⟩
  rw [hparams] at hplain
  rw [← h.moduleName_eq, ← h'.moduleName_eq]
  exact Part.moduleName_congr fun hnumbered =>
    absurd (hplain.symm.trans hnumbered) Bool.false_ne_true

end Has

end Library

namespace Netlist

namespace Named

variable {n : Netlist} {l l' : Library} {i j : Nat} {c d : Component}
  {name name' other other' : String}

/-- The names that a component is given on the way to two libraries correspond. -/
theorem corresponds (h : n.Named l i name) (h' : n.Named l' i name') (hn : n.Uniform)
    (hi : n.component i = .ok c) : l.Corresponds l' name name' := by
  rcases h.exists_part hn hi with ⟨κ, hκ, _, _, hfollow⟩
  exact (h.has hn hκ hfollow).corresponds (h'.has hn hκ hfollow)

/-- Components that are given one name are of one kind. -/
theorem kind_eq (h : n.Named l i name) (h' : n.Named l j name) (hn : n.Uniform)
    (hi : n.component i = .ok c) (hj : n.component j = .ok d) : c.kind = d.kind := by
  rcases h.exists_part hn hi with ⟨κ, hκ, hkind, _, hfollow⟩
  rcases h'.exists_part hn hj with ⟨κ', hκ', hkind', _, hfollow'⟩
  rcases (h.has hn hκ hfollow).part_eq (h'.has hn hκ' hfollow') hn hκ hκ' with rfl
  exact hkind.unique hkind'

/-- Components that are given one name on the way to a library are given one name on the way to
every library. -/
theorem congr (h : n.Named l i name) (h' : n.Named l j name) (hother : n.Named l' i other)
    (hother' : n.Named l' j other') (hn : n.Uniform) (hi : n.component i = .ok c)
    (hj : n.component j = .ok d) : other = other' := by
  rcases h.exists_part hn hi with ⟨κ, hκ, _, _, hfollow⟩
  rcases h'.exists_part hn hj with ⟨κ', hκ', _, _, hfollow'⟩
  -- The one name stands for one part, and the other library has it under one name as well.
  rcases (h.has hn hκ hfollow).part_eq (h'.has hn hκ' hfollow') hn hκ hκ' with rfl
  rw [← (hother.has hn hκ hfollow).moduleName_eq, (hother'.has hn hκ hfollow').moduleName_eq]

end Named

end Netlist

namespace ModuleUse

variable {uses : List ModuleUse} {components : List Component} {moduleName : String}
  {c : Component}

/-- A use with one more instance. -/
def listing (u : ModuleUse) (c : Component) : ModuleUse :=
  { u with instances := u.instances ++ [c.instanceName] }

/-- An instance is listed in the entry of its module, or in a new entry behind the others. -/
theorem record_cases (moduleName : String) (c : Component) (uses : List ModuleUse) :
    (∃ before u after, uses = before ++ u :: after ∧ u.moduleName = moduleName ∧
      record moduleName c uses = before ++ u.listing c :: after) ∨
    (moduleName ∉ uses.map ModuleUse.moduleName ∧
      record moduleName c uses = uses ++ [⟨moduleName, c.kind.name, [c.instanceName]⟩]) := by
  induction uses with
  | nil => exact .inr ⟨List.not_mem_nil, rfl⟩
  | cons u rest ih =>
      rw [record]
      split
      · next hname => exact .inl ⟨[], u, rest, rfl, hname, rfl⟩
      · next hname =>
        rcases ih with ⟨before, v, after, rfl, hv, hrecord⟩ | ⟨hnew, hrecord⟩
        · exact .inl ⟨u :: before, v, after, rfl, hv, by rw [hrecord]; rfl⟩
        · refine .inr ⟨?_, by rw [hrecord]; rfl⟩
          rw [List.map_cons, List.mem_cons, not_or]
          exact ⟨Ne.symm hname, hnew⟩

/-- Every component is listed once, every module has one entry, and both the entries and the
instances in an entry are in the order of the components. -/
structure Lists (components : List Component) (uses : List ModuleUse) : Prop where
  once : (uses.flatMap ModuleUse.instances).Perm (components.map Component.instanceName)
  entries : (uses.map ModuleUse.moduleName).Nodup
  ordered : ∀ u ∈ uses, u.instances.Sublist (components.map Component.instanceName)
  first : (uses.map fun u => u.instances.head?).Sublist
    (components.map fun c => some c.instanceName)

namespace Lists

theorem nil : Lists [] [] :=
  ⟨.nil, List.nodup_nil, List.forall_mem_nil _, .slnil⟩

/-- An entry has a first instance. -/
theorem exists_head {u : ModuleUse} (h : Lists components uses) (hu : u ∈ uses) :
    ∃ name, u.instances.head? = some name := by
  have hhead := h.first.subset (List.mem_map_of_mem (f := fun u => u.instances.head?) hu)
  rcases List.mem_map.mp hhead with ⟨c, _, hc⟩
  exact ⟨c.instanceName, hc.symm⟩

/-- What is listed stays in order when components follow. -/
theorem ordered_append {u : ModuleUse} (h : Lists components uses) (hu : u ∈ uses) :
    u.instances.Sublist ((components ++ [c]).map Component.instanceName) := by
  rw [List.map_append]
  exact (h.ordered u hu).trans (List.sublist_append_left ..)

/-- One more instance in an entry. -/
theorem listing {before after : List ModuleUse} {u : ModuleUse}
    (h : Lists components (before ++ u :: after)) :
    Lists (components ++ [c]) (before ++ u.listing c :: after) := by
  have hu : u ∈ before ++ u :: after := List.mem_append_right _ (List.mem_cons_self ..)
  constructor
  · rw [List.map_append, List.map_singleton]
    refine .trans (List.perm_iff_count.mpr fun name => ?_) (h.once.append_right _)
    simp only [List.flatMap_append, List.flatMap_cons, List.count_append, ModuleUse.listing]
    omega
  · have hnames := h.entries
    rw [List.map_append, List.map_cons] at hnames
    rw [List.map_append, List.map_cons]
    exact hnames
  · intro v hv
    rcases List.mem_append.mp hv with hv | hv
    · exact h.ordered_append (List.mem_append_left _ hv)
    rcases List.mem_cons.mp hv with rfl | hv
    · rw [List.map_append, List.map_singleton]
      exact (h.ordered u hu).append (.refl _)
    · exact h.ordered_append (List.mem_append_right _ (List.mem_cons_of_mem _ hv))
  · -- The entry keeps its first instance.
    have hhead : (u.listing c).instances.head? = u.instances.head? := by
      rcases h.exists_head hu with ⟨name, hname⟩
      rw [ModuleUse.listing, List.head?_append, hname, Option.some_or]
    have hfirst := h.first
    rw [List.map_append, List.map_cons] at hfirst
    rw [List.map_append, List.map_cons, hhead, List.map_append]
    exact hfirst.trans (List.sublist_append_left ..)

/-- An entry for a module that has none. -/
theorem opening (h : Lists components uses) (hnew : moduleName ∉ uses.map ModuleUse.moduleName) :
    Lists (components ++ [c]) (uses ++ [⟨moduleName, c.kind.name, [c.instanceName]⟩]) := by
  constructor
  · rw [List.flatMap_append, List.flatMap_singleton, List.map_append, List.map_singleton]
    exact h.once.append_right _
  · rw [List.map_append, List.map_singleton, ← List.concat_eq_append, List.nodup_concat]
    exact ⟨hnew, h.entries⟩
  · refine List.forall_mem_append.mpr ⟨fun u hu => h.ordered_append hu,
      List.forall_mem_singleton.mpr ?_⟩
    rw [List.map_append]
    exact List.sublist_append_right ..
  · rw [List.map_append, List.map_append]
    exact h.first.append (.refl _)

/-- Either way one more component is listed. -/
theorem record (h : Lists components uses) :
    Lists (components ++ [c]) (record moduleName c uses) := by
  rcases record_cases moduleName c uses with
    ⟨before, u, after, rfl, _, hrecord⟩ | ⟨hnew, hrecord⟩
  · rw [hrecord]
    exact h.listing
  · rw [hrecord]
    exact h.opening hnew

end Lists

/-- On the way to a library the components in an entry are given its name, and they are of its
kind. -/
structure Tells (n : Netlist) (l : Library) (u : ModuleUse) : Prop where
  kind : ∃ index c, n.component index = .ok c ∧ n.Named l index u.moduleName ∧
    c.kind.name = u.kind
  named : ∀ name ∈ u.instances, ∃ index c, n.component index = .ok c ∧ c.instanceName = name ∧
    n.Named l index u.moduleName

namespace Tells

variable {n : Netlist} {l l' : Library} {u : ModuleUse} {index : Nat}

theorem mono (h : u.Tells n l) (hstarts : l.Starts l') : u.Tells n l' := by
  constructor
  · rcases h.kind with ⟨index, c, hc, hnamed, hkind⟩
    exact ⟨index, c, hc, hnamed.mono hstarts, hkind⟩
  · intro name hname
    rcases h.named name hname with ⟨index, c, hc, hinstance, hnamed⟩
    exact ⟨index, c, hc, hinstance, hnamed.mono hstarts⟩

/-- An entry that is opened for a component. -/
theorem single (hc : n.component index = .ok c) (h : n.Named l index moduleName) :
    Tells n l ⟨moduleName, c.kind.name, [c.instanceName]⟩ :=
  ⟨⟨index, c, hc, h, rfl⟩, List.forall_mem_singleton.mpr ⟨index, c, hc, rfl, h⟩⟩

/-- An entry with one more component that is given its name. -/
theorem listing (h : u.Tells n l) (hc : n.component index = .ok c)
    (hnamed : n.Named l index u.moduleName) : (u.listing c).Tells n l :=
  ⟨h.kind, List.forall_mem_append.mpr
    ⟨h.named, List.forall_mem_singleton.mpr ⟨index, c, hc, rfl, hnamed⟩⟩⟩

/-- The components that are given the name of an entry are of its kind. -/
theorem kind_eq (h : u.Tells n l) (hn : n.Uniform) (hc : n.component index = .ok c)
    (hnamed : n.Named l index u.moduleName) : c.kind.name = u.kind := by
  rcases h.kind with ⟨first, d, hd, hfirst, hkind⟩
  rw [hnamed.kind_eq hfirst hn hc hd, hkind]

/-- The same of all entries when one more component is listed under the name it is given. -/
theorem record (h : ∀ u ∈ uses, u.Tells n l) (hc : n.component index = .ok c)
    (hnamed : n.Named l index moduleName) :
    ∀ u ∈ ModuleUse.record moduleName c uses, u.Tells n l := by
  rcases record_cases moduleName c uses with
    ⟨before, u, after, rfl, rfl, hrecord⟩ | ⟨_, hrecord⟩
  · rcases List.forall_mem_append.mp h with ⟨hbefore, hrest⟩
    rcases List.forall_mem_cons.mp hrest with ⟨hu, hafter⟩
    rw [hrecord]
    exact List.forall_mem_append.mpr
      ⟨hbefore, List.forall_mem_cons.mpr ⟨hu.listing hc hnamed, hafter⟩⟩
  · rw [hrecord]
    exact List.forall_mem_append.mpr
      ⟨h, List.forall_mem_singleton.mpr (single hc hnamed)⟩

end Tells

end ModuleUse

namespace Netlist

open ModuleUse

variable {n : Netlist} {w w' v : Workshop}

/-- While the uses are listed, what has been listed is in order, and its names are those that the
components have been given so far. -/
theorem recorded {components : List Component} {rest : List (Component × Nat)}
    {uses uses' : List ModuleUse} (hn : n.Uniform)
    (hrest : ∀ c ∈ rest, n.component c.2 = .ok c.1) (hw : w.library.Grown n)
    (hlists : Lists components uses) (htells : ∀ u ∈ uses, u.Tells n w.library)
    (h : Returns (rest.foldlM (fun uses c => do
      return record (← n.makeComponent c.2) c.1 uses) uses) w uses' w') :
    Lists (components ++ rest.map Prod.fst) uses' ∧ ∀ u ∈ uses', u.Tells n w'.library := by
  -- The library and the entries go on from one component to the next, and a name that has been
  -- given stays given.
  induction rest generalizing components uses w with
  | nil =>
      rw [List.foldlM_nil] at h
      rcases returns_pure.mp h with ⟨rfl, rfl⟩
      rw [List.map_nil, List.append_nil]
      exact ⟨hlists, htells⟩
  | cons c rest ih =>
      rw [List.foldlM_cons] at h
      rcases returns_bind.mp h with ⟨more, r, hmore, h⟩
      rcases returns_bind.mp hmore with ⟨name, r, hmake, hpure⟩
      rcases returns_pure.mp hpure with ⟨rfl, rfl⟩
      rcases List.forall_mem_cons.mp hrest with ⟨hc, hrest⟩
      rcases settles_makeComponent hn _ _ _ _ hw hmake with ⟨hr, hstarts, _⟩
      have hnamed : n.Named r.library c.2 name := ⟨w, r, hw, hmake, .refl _⟩
      have htells' := Tells.record (fun u hu => (htells u hu).mono hstarts) hc hnamed
      have hall := ih hrest hr (hlists.record (c := c.1)) htells' h
      rwa [List.append_assoc, List.singleton_append] at hall

/-- A component that is listed in an entry is given the name of the entry. -/
theorem named_of_listed {k : Kernel} {l : Library} {u : ModuleUse} {index : Nat} {c : Component}
    (hk : ofKernel k = .ok n) (hu : u.Tells n l) (hc : n.component index = .ok c)
    (hlisted : c.instanceName ∈ u.instances) : n.Named l index u.moduleName := by
  rcases hu.named _ hlisted with ⟨j, d, hd, hname, hnamed⟩
  rcases index_eq_of_ofKernel hk hd hc hname with rfl
  exact hnamed

/-- The uses of modules that are listed agree with the printed top module. Every instance in it is
listed once, the entry of an instance corresponds to the module it is one of, and two instances
are listed together just if they are instances of one module. -/
theorem uses_of_ofKernel {k : Kernel} {text : String} {uses : List ModuleUse}
    (hk : ofKernel k = .ok n) (htext : Returns n.sourceText .empty text w')
    (huses : Returns n.moduleUses .empty uses v) :
    ∃ top w, Returns n.makeTop .empty top w ∧ n.Prints text (w.library.modules ++ [top]) ∧
      (n.components.map Component.instanceName).Nodup ∧
      (top.instances.map fun i => i.2.1).Perm (n.components.map Component.instanceName) ∧
      Lists n.components uses ∧
      ∀ u ∈ uses, (∀ c ∈ n.components, c.instanceName ∈ u.instances → c.kind.name = u.kind) ∧
        ∀ i ∈ top.instances, i.2.1 ∈ u.instances →
          v.library.Corresponds w.library u.moduleName i.1 ∧
            ∀ j ∈ top.instances, j.2.1 ∈ u.instances ↔ j.1 = i.1 := by
  have hn := uniform_of_ofKernel hk
  rcases prints_of_sourceText htext with ⟨top, w, htop, hprints⟩
  have hcomponents : ∀ c ∈ n.components.zipIdx, n.component c.2 = .ok c.1 :=
    fun c hc => component_ok.mpr (List.mem_zipIdx_iff_getElem?.mp hc)
  -- The list starts with an empty library of its own, as the top module does.
  rcases recorded hn hcomponents .empty .nil (List.forall_mem_nil _) huses with ⟨hlists, htells⟩
  rw [List.nil_append, List.zipIdx_map_fst] at hlists
  have hinstances : (top.instances.map fun i => i.2.1).Perm
      (n.components.map Component.instanceName) := by
    have hnames : (n.components.zipIdx.map fun c => c.1.instanceName)
        = n.components.map Component.instanceName := by
      rw [← Function.comp_def, ← List.map_map, List.zipIdx_map_fst]
    rw [← hnames, map_eq_of_forall₂ (instances_of_makeTop hn htop)
      fun _ i hi => congrArg Prod.fst hi.2]
    exact n.ordered_perm.map _
  refine ⟨top, w, htop, hprints, nodup_instanceNames hk, hinstances, hlists, fun u hu => ⟨?_, ?_⟩⟩
  · intro c hc hlisted
    rcases List.getElem?_of_mem hc with ⟨index, hindex⟩
    exact (htells u hu).kind_eq hn (component_ok.mpr hindex)
      (named_of_listed hk (htells u hu) (component_ok.mpr hindex) hlisted)
  intro i hi hlisted
  rcases exists_component hn htop hi with ⟨index, c, hc, hnamed, hconnected⟩
  rw [hconnected] at hlisted
  have hentry := named_of_listed hk (htells u hu) hc hlisted
  refine ⟨hentry.corresponds hnamed hn hc, fun j hj => ?_⟩
  rcases exists_component hn htop hj with ⟨index', d, hd, hnamed', hconnected'⟩
  rw [hconnected']
  constructor
  · intro hlisted'
    exact (named_of_listed hk (htells u hu) hd hlisted').congr hentry hnamed' hnamed hn hd hc
  · -- Every instance is listed somewhere, and no two entries have one name.
    intro hsame
    have hd' : d.instanceName ∈ uses.flatMap ModuleUse.instances :=
      hlists.once.mem_iff.mpr (List.mem_map_of_mem (List.mem_of_getElem? (component_ok.mp hd)))
    rcases List.mem_flatMap.mp hd' with ⟨u', hu', hlisted'⟩
    have hentry' := named_of_listed hk (htells u' hu') hd hlisted'
    rw [hsame] at hnamed'
    have hname := hnamed'.congr hnamed hentry' hentry hn hd hc
    rwa [List.inj_on_of_nodup_map hlists.entries hu' hu hname] at hlisted'

/-- For `increments` the queue of a row that is read and that of a row that is written are listed
in one entry, and the top module has a module of the same parameters for either. -/
theorem uses_of_ofKernel_increments : ∃ n text w' uses v top w, ofKernel increments = .ok n ∧
    Returns n.sourceText .empty text w' ∧ Returns n.moduleUses .empty uses v ∧
      ⟨"FIFO_UInt8_1_1", "fifo", ["FIFO_in_stencil_stream", "FIFO_out_stencil_stream"]⟩ ∈ uses ∧
      Returns n.makeTop .empty top w ∧ ∀ i ∈ top.instances,
        i.2.1 ∈ ["FIFO_in_stencil_stream", "FIFO_out_stencil_stream"] →
          v.library.Corresponds w.library "FIFO_UInt8_1_1" i.1 := by
  have hmade : (ofKernel increments).map (fun n => ((n.sourceText.run.run .empty).1.toBool,
      (n.moduleUses.run.run .empty).1.map fun uses => decide
        (⟨"FIFO_UInt8_1_1", "fifo", ["FIFO_in_stencil_stream", "FIFO_out_stencil_stream"]⟩ ∈ uses)))
      = .ok (true, .ok true) := by
    simp only [sourceText, makeTop_eq]
    decide +kernel
  rcases Fallible.exists_of_map hmade with ⟨n, hn, hboth⟩
  rcases Prod.mk.inj hboth with ⟨hprinted, hlisted⟩
  rcases Fallible.exists_ok hprinted with ⟨text, htext⟩
  rcases Fallible.exists_of_map hlisted with ⟨uses, huses, hmem⟩
  have hmem := of_decide_eq_true hmem
  rcases uses_of_ofKernel hn (returns_of_run htext) (returns_of_run huses) with
    ⟨top, w, htop, _, _, _, _, hagree⟩
  exact ⟨n, text, _, uses, _, top, w, hn, returns_of_run htext, returns_of_run huses, hmem, htop,
    fun i hi hqueue => ((hagree _ hmem).2 i hi hqueue).1⟩

end Netlist

end StencilRtl
