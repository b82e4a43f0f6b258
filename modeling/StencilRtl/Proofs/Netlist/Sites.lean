import Mathlib.Algebra.BigOperators.Group.List.Basic
import Mathlib.Data.List.Nodup
import StencilRtl.Netlist.Check
import StencilRtl.Netlist.Resolve
import StencilRtl.Proofs.Netlist.Building
import StencilRtl.Proofs.Signals

/-!
# The Signals of a Design

Where the flat signals of a top module come from.

A signal belongs to a port of the top module, to one of its wires or to a port of an
instance. All three are sites: something with an endpoint, a shape and a name that the
names of its signals begin with. A shape spreads into lines, and a signal of the top
module is a site and one of its lines.

Two things make this worth having. The lines of a shape do not depend on where it
stands, so two sites that carry the same have the same lines, and a connection joins
them line by line. And if no two signals of a module have one name, a name tells the
site and the line it belongs to.

## Main definitions

* `Site`, `Netlist.sites`: The ports and wires of a top module and its instances.
* `linesOf`: Sites with their lines.
* `Netlist.Resolves`: The site of an endpoint.

## Theorems

* `lines_eq_of_carrySame`: Shapes that carry the same have the same lines.
* `exists_resolves`: Endpoints are sites.
-/

namespace StencilRtl

/-- Shapes that carry the same have the same lines. -/
theorem lines_eq_of_carrySame {a b : Shape} (h : Netlist.carrySame a b = .ok true) :
    a.lines = b.lines := by
  unfold Netlist.carrySame at h
  split at h
  · exact absurd (Except.ok.inj h) Bool.false_ne_true
  next hstreams =>
  split at h
  · exact absurd (Except.ok.inj h) Bool.false_ne_true
  next hkinds =>
  rcases Fallible.bind_ok.mp h with ⟨width, hwidth, h⟩
  rcases Fallible.bind_ok.mp h with ⟨width', hwidth', h⟩
  -- Streams have three lines and all else one, so that the data is all that may differ.
  have hsame : width = width' := of_decide_eq_true (Except.ok.inj h)
  rw [Shape.dataWidth_ok hwidth, Shape.dataWidth_ok hwidth'] at hsame
  unfold Shape.lines
  rw [hsame]
  unfold Shape.isStream at hstreams hkinds
  cases ha : a.kind <;> cases hb : b.kind <;> simp_all

/-- A port of the top module, a wire or a port of an instance. Wires have no direction. -/
structure Site where
  endpoint : Endpoint
  base : String
  shape : Shape
  direction : Option Direction
  deriving DecidableEq, Repr

namespace Site

/-- The name of the signal of a line. -/
def name (s : Site) (l : Line) : String := s.base ++ l.ending

/-- Whether a signal comes into the logic of the top module: through one of its own
    inputs or from an instance. -/
def incoming (s : Site) (l : Line) : Bool :=
  match s.endpoint, s.direction with
  | _, none => false
  | .top _, some port => l.direction port = .input
  | .port _ _, some port => l.direction port = .output

end Site

/-- Sites with their lines. -/
def linesOf (sites : List Site) : List (Site × Line) :=
  sites.flatMap fun s => s.shape.lines.map fun l => (s, l)

theorem mem_linesOf {sites : List Site} {s : Site} {l : Line} :
    (s, l) ∈ linesOf sites ↔ s ∈ sites ∧ l ∈ s.shape.lines := by
  rw [linesOf, List.mem_flatMap]
  refine ⟨?_, fun ⟨hs, hl⟩ => ⟨s, hs, List.mem_map_of_mem hl⟩⟩
  rintro ⟨s', hs', hmem⟩
  rcases List.mem_map.mp hmem with ⟨l', hl', hpair⟩
  rcases Prod.mk.inj hpair with ⟨rfl, rfl⟩
  exact ⟨hs', hl'⟩

namespace Netlist

/-- The ports of the top module. -/
def portSites (n : Netlist) : List Site :=
  n.ports.map fun (name, shape, port) => ⟨.top name, name, shape, some port⟩

/-- The wires of the top module. -/
def wireSites (n : Netlist) : List Site :=
  n.wires.map fun (name, shape) => ⟨.top name, name, shape, none⟩

/-- The ports of an instance. -/
def componentSites (component : Component × Nat) : List Site :=
  component.1.ports.map fun (name, shape, port) =>
    ⟨.port component.2 name, component.1.instanceName ++ "_" ++ name, shape, some port⟩

/-- The ports of all instances. -/
def instanceSites (n : Netlist) : List Site := n.components.zipIdx.flatMap componentSites

/-- All sites of a design. -/
def sites (n : Netlist) : List Site := n.portSites ++ n.wireSites ++ n.instanceSites

/-- The site of an endpoint. -/
structure Resolves (n : Netlist) (e : Endpoint) (s : Site) : Prop where
  mem : s ∈ n.sites
  endpoint_eq : s.endpoint = e
  shape : n.endpoint e = .ok (s.shape, s.direction)
  base : n.signalBase e = .ok s.base

variable {n : Netlist} {e : Endpoint}

theorem mem_wireSites {s : Site} : s ∈ n.wireSites ↔
    ∃ name shape, (name, shape) ∈ n.wires ∧ s = ⟨.top name, name, shape, none⟩ := by
  rw [wireSites, List.mem_map]
  exact ⟨fun ⟨w, hw, hs⟩ => ⟨w.1, w.2, hw, hs.symm⟩, fun ⟨name, shape, hw, hs⟩ => ⟨_, hw, hs.symm⟩⟩

/-- Wires are the sites without a direction. -/
theorem mem_wireSites_of_direction {s : Site} (h : s ∈ n.sites) (hnone : s.direction = none) :
    s ∈ n.wireSites := by
  rcases List.mem_append.mp h with h | h
  · rcases List.mem_append.mp h with h | h
    · rcases List.mem_map.mp h with ⟨p, _, rfl⟩
      exact absurd hnone (by simp)
    · exact h
  · rcases List.mem_flatMap.mp h with ⟨c, _, h⟩
    rcases List.mem_map.mp h with ⟨p, _, rfl⟩
    exact absurd hnone (by simp)

theorem mem_of_find?_fst {α : Type} {xs : List (String × α)} {name : String} {a : α}
    (h : (xs.find? fun x => x.1 = name).map Prod.snd = some a) : (name, a) ∈ xs := by
  rcases Option.map_eq_some_iff.mp h with ⟨found, hfind, rfl⟩
  have hname := List.find?_some hfind
  rw [decide_eq_true_eq] at hname
  exact hname ▸ List.mem_of_find?_eq_some hfind

/-- What is told apart by its name is found by it. -/
theorem find?_fst_of_mem {α : Type} {xs : List (String × α)} (hnodup : (xs.map Prod.fst).Nodup)
    {name : String} {a : α} (h : (name, a) ∈ xs) :
    (xs.find? fun x => x.1 = name).map Prod.snd = some a := by
  cases hfind : (xs.find? fun x => x.1 = name).map Prod.snd with
  | none =>
      rw [Option.map_eq_none_iff, List.find?_eq_none] at hfind
      exact absurd (decide_eq_true rfl) (hfind _ h)
  | some b =>
      have hsame := List.inj_on_of_nodup_map hnodup (mem_of_find?_fst hfind) h rfl
      rw [(Prod.mk.inj hsame).2]

/-- What has a shape is a site. -/
theorem exists_resolves {shape : Shape} {port : Option Direction}
    (h : n.endpoint e = .ok (shape, port)) :
    ∃ s, n.Resolves e s ∧ s.shape = shape ∧ s.direction = port := by
  cases e with
  | top name =>
      -- Wires are looked at before ports, while the sites list the ports first.
      have hmem : (⟨.top name, name, shape, port⟩ : Site) ∈ n.sites := by
        rw [endpoint] at h
        split at h
        · next hfound =>
          rcases Except.ok.inj h with ⟨⟩
          refine List.mem_append_left _ (List.mem_append_right _ ?_)
          exact mem_wireSites.mpr ⟨name, shape, mem_of_find?_fst hfound, rfl⟩
        split at h
        · next hfound =>
          rcases Except.ok.inj h with ⟨⟩
          refine List.mem_append_left _ (List.mem_append_left _ ?_)
          exact List.mem_map.mpr ⟨_, mem_of_find?_fst hfound, rfl⟩
        · exact absurd h (by simp [undefinedName])
      exact ⟨_, ⟨hmem, rfl, h, rfl⟩, rfl, rfl⟩
  | port index name =>
      rcases Fallible.bind_ok.mp h with ⟨c, hc, hport⟩
      split at hport
      · next direction hfound =>
        rcases Except.ok.inj hport with ⟨⟩
        have hmem : (⟨.port index name, c.instanceName ++ "_" ++ name, shape,
            some direction⟩ : Site) ∈ n.sites := by
          refine List.mem_append_right _ (List.mem_flatMap.mpr ⟨(c, index), ?_, ?_⟩)
          · exact List.mem_zipIdx_iff_getElem?.mpr (component_ok.mp hc)
          · exact List.mem_map.mpr ⟨_, mem_of_find?_fst hfound, rfl⟩
        exact ⟨_, ⟨hmem, rfl, h, Fallible.bind_ok.mpr ⟨c, hc, rfl⟩⟩, rfl, rfl⟩
      · exact absurd hport (by simp [undefinedName])

/-- The signals of an endpoint are the lines of its site. -/
theorem endpointSignals_ok {signals : List Signal} (h : n.endpointSignals e = .ok signals) :
    ∃ s, n.Resolves e s ∧ signals = s.shape.lines.map fun l => l.signal s.base .input := by
  rcases Fallible.bind_ok.mp h with ⟨⟨shape, port⟩, hshape, h⟩
  rcases Fallible.bind_ok.mp h with ⟨base, hbase, hsignals⟩
  rcases exists_resolves hshape with ⟨s, hs, rfl, rfl⟩
  rw [hs.base, Except.ok.injEq] at hbase
  exact ⟨s, hs, hbase ▸ Shape.signals_ok hsignals⟩

/-- An endpoint has one site. -/
theorem Resolves.unique {s t : Site} (hs : n.Resolves e s) (ht : n.Resolves e t) : s = t := by
  have hshape := hs.shape.symm.trans ht.shape
  have hbase := hs.base.symm.trans ht.base
  rw [Except.ok.injEq, Prod.mk.injEq] at hshape
  rw [Except.ok.injEq] at hbase
  rcases s with ⟨e₁, b₁, s₁, d₁⟩
  rcases t with ⟨e₂, b₂, s₂, d₂⟩
  rw [Site.mk.injEq]
  exact ⟨hs.endpoint_eq.trans ht.endpoint_eq.symm, hbase, hshape.1, hshape.2⟩

end Netlist

end StencilRtl
