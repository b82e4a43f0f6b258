import Mathlib.Data.List.Forall2
import StencilRtl.Proofs.Rtl.Declarations

/-!
# Connections of an Instance

When the connections of an instance fit the module it is an instance of.

Connections are made by name. They fit if they name each port of the module once and a
signal that is connected to a port has its width. Connections are written next to the
signals of the module around them and not next to the ports, and in an order of their own.
So what is read off the text is `Wired`: the ports can be put in the order of the
connections such that each has the name and, if it is connected to a signal, a signal with
its width has been declared. This is put together from pieces. Where names are declared
once a name has one port and one width, and then wired connections fit.

## Main definitions

* `Rtl.Module.Fits`: Connections in one module fit another one.
* `Rtl.Wired`: Ports are wired to declared signals.

## Theorems

* `Rtl.Module.fits_of_wired`: Wired connections fit.
-/

namespace StencilRtl

namespace Rtl

/-- The connections of an instance in one module fit another module: each port is named once, and
a signal is as wide as the port it is connected to. -/
structure Module.Fits (outer inner : Module) (connections : List (String × Expr)) : Prop where
  names : (connections.map Prod.fst).Perm (inner.ports.map Port.name)
  widths : ∀ p ∈ inner.ports, ∀ signal width, (p.name, .ref signal) ∈ connections →
    (signal, width) ∈ outer.signals → width = p.width

/-- A port is what a connection names, and it is as wide as the signal it is connected to. -/
structure Port.WiredTo (signals : List (String × Nat)) (p : Port) (c : String × Expr) : Prop where
  name : c.1 = p.name
  width : ∀ signal, c.2 = .ref signal → (signal, p.width) ∈ signals

/-- Ports are wired, one connection to each. -/
def Wired (signals : List (String × Nat)) (ports : List Port)
    (connections : List (String × Expr)) : Prop :=
  ∃ ordered : List Port, ordered.Perm ports ∧
    List.Forall₂ (Port.WiredTo signals) ordered connections

variable {signals signals' : List (String × Nat)} {p : Port} {ports ports' : List Port}
  {connections connections' : List (String × Expr)}

theorem Port.WiredTo.ref {name signal : String} {width : Nat} {d : Direction}
    (h : (signal, width) ∈ signals) :
    Port.WiredTo signals ⟨name, width, d⟩ (name, .ref signal) where
  name := rfl
  width _ hsame := Expr.ref.inj hsame ▸ h

namespace Wired

theorem of_forall₂ (h : List.Forall₂ (Port.WiredTo signals) ports connections) :
    Wired signals ports connections := ⟨ports, .rfl, h⟩

theorem nil : Wired signals [] [] := .of_forall₂ .nil

theorem cons {c : String × Expr} (hp : p.WiredTo signals c)
    (h : Wired signals ports connections) : Wired signals (p :: ports) (c :: connections) := by
  rcases h with ⟨ordered, hperm, hall⟩
  exact ⟨p :: ordered, hperm.cons p, .cons hp hall⟩

theorem append (h : Wired signals ports connections) (h' : Wired signals ports' connections') :
    Wired signals (ports ++ ports') (connections ++ connections') := by
  rcases h with ⟨ordered, hperm, hall⟩
  rcases h' with ⟨ordered', hperm', hall'⟩
  exact ⟨ordered ++ ordered', hperm.append hperm', List.rel_append hall hall'⟩

/-- The order of the ports does not matter. -/
theorem of_perm (h : Wired signals ports connections) (hperm : ports.Perm ports') :
    Wired signals ports' connections := by
  rcases h with ⟨ordered, hordered, hall⟩
  exact ⟨ordered, hordered.trans hperm, hall⟩

theorem map {α : Type} {f : α → Port} {g : α → String × Expr} {xs : List α}
    (h : ∀ x ∈ xs, (f x).WiredTo signals (g x)) : Wired signals (xs.map f) (xs.map g) := by
  refine .of_forall₂ ?_
  rw [List.forall₂_map_left_iff, List.forall₂_map_right_iff, List.forall₂_same]
  exact h

theorem flatMap {α : Type} {f : α → List Port} {g : α → List (String × Expr)} {xs : List α}
    (h : ∀ x ∈ xs, Wired signals (f x) (g x)) : Wired signals (xs.flatMap f) (xs.flatMap g) := by
  induction xs with
  | nil => exact nil
  | cons x rest ih =>
      exact (h x (List.mem_cons_self ..)).append (ih fun y hy => h y (List.mem_cons_of_mem _ hy))

/-- The clock and the reset are wired through. -/
theorem common (hclock : (clock, 1) ∈ signals) (hreset : (reset, 1) ∈ signals) :
    Wired signals Port.common commonConnections :=
  cons (.ref hclock) (cons (.ref hreset) nil)

/-- Ports are wired to signals of the same names. -/
theorem same {names : List String} (hnames : ports.map Port.name = names)
    (h : ∀ p ∈ ports, (p.name, p.width) ∈ signals) : Wired signals ports (sameNames names) := by
  rw [← hnames, sameNames, List.map_map]
  have hwired := map (f := id) (g := fun p : Port => (p.name, Expr.ref p.name)) fun p hp =>
    Port.WiredTo.ref (d := p.direction) (h p hp)
  rw [List.map_id] at hwired
  exact hwired

end Wired

/-- Wired connections fit where names are declared once. -/
theorem Module.fits_of_wired {outer inner : Module} (houter : outer.names.Nodup)
    (hinner : inner.names.Nodup) (h : Wired outer.signals inner.ports connections) :
    outer.Fits inner connections := by
  rcases h with ⟨ordered, hperm, hall⟩
  have hnames := map_eq_of_forall₂ hall fun _ _ h => h.name
  refine ⟨hnames ▸ hperm.map _, fun p hp signal width hconnected hdeclared => ?_⟩
  -- The port that is connected by this name is the one that has the name.
  rcases exists_of_forall₂ hall.flip hconnected with ⟨q, hq, hwired⟩
  rcases port_unique hinner (hperm.mem_iff.mp hq) hp hwired.name.symm with rfl
  exact signal_unique houter hdeclared (hwired.width signal rfl)

end Rtl

end StencilRtl
