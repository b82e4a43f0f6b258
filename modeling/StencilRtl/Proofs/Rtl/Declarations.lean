import Mathlib.Data.List.Nodup
import StencilRtl.Proofs.Rtl.Body
import StencilRtl.Proofs.Rtl.Traces

/-!
# Declarations of a Module

Which names a module declares, and which instances stand in it.

Ports, signals, arrays and instances share the names of a module. Its body is put together
from smaller ones, and most of what is put together declares nothing. `Body.Declares` tells
the names and the instances of a body in order, if it can be built. It has a rule for each
way to put bodies together, so the names of a module are read off the way it is written.

## Main definitions

* `Item.name?`, `Module.names`: What a module declares.
* `Item.instance?`: An instance in it.
* `Body.Declares`: What a body declares if it can be built.

## Theorems

* `Module.port_unique`, `Module.signal_unique`: What is known if no name is declared twice.
* `Body.Declares.join_map`, `Body.Declares.join_silent`: Many bodies of one kind.
-/

namespace StencilRtl

namespace Rtl

/-- The name an item declares. -/
def Item.name? : Item → Option String
  | .wire name _ => some name
  | .reg name _ => some name
  | .memory name _ _ => some name
  | .submodule _ instanceName _ => some instanceName
  | .assign _ _ => none
  | .process _ _ => none

/-- The signal an item declares. -/
def Item.declared? : Item → Option (String × Nat)
  | .wire name width => some (name, width)
  | .reg name width => some (name, width)
  | _ => none

/-- The instance an item is: its module, its name and its connections. -/
def Item.instance? : Item → Option (String × String × List (String × Expr))
  | .submodule name instanceName connections => some (name, instanceName, connections)
  | _ => none

namespace Module

/-- The names of the ports, signals, arrays and instances of a module. -/
def names (m : Module) : List String := m.ports.map Port.name ++ m.body.filterMap Item.name?

variable {m : Module}

theorem instances_eq (m : Module) : m.instances = m.body.filterMap Item.instance? := by
  rfl

theorem signals_eq (m : Module) :
    m.signals = m.ports.map (fun p => (p.name, p.width)) ++ m.body.filterMap Item.declared? := by
  rfl

/-- Arrays and instances have names as well, but they are no signals. -/
theorem map_declared_sublist (items : List Item) :
    ((items.filterMap Item.declared?).map Prod.fst).Sublist (items.filterMap Item.name?) := by
  induction items with
  | nil => exact .slnil
  | cons i rest ih =>
      cases i with
      | wire name width => exact ih.cons_cons name
      | reg name width => exact ih.cons_cons name
      | memory name width depth => exact ih.cons name
      | submodule name instanceName connections => exact ih.cons instanceName
      | assign target value => exact ih
      | process trigger body => exact ih

/-- Signals are among what is declared. -/
theorem map_signals_sublist (m : Module) : (m.signals.map Prod.fst).Sublist m.names := by
  rw [signals_eq, names, List.map_append, List.map_map]
  exact (List.Sublist.refl _).append (map_declared_sublist m.body)

variable (h : m.names.Nodup)

include h

/-- If no name is declared twice, a name tells the width of its signal, -/
theorem signal_unique {name : String} {v w : Nat} (hv : (name, v) ∈ m.signals)
    (hw : (name, w) ∈ m.signals) : v = w := by
  have hnodup := h.sublist m.map_signals_sublist
  exact (Prod.mk.inj (List.inj_on_of_nodup_map hnodup hv hw rfl)).2

/-- and it tells its port. -/
theorem port_unique {p q : Port} (hp : p ∈ m.ports) (hq : q ∈ m.ports) (hname : p.name = q.name) :
    p = q :=
  List.inj_on_of_nodup_map (h.sublist (List.sublist_append_left ..)) hp hq hname

end Module

namespace Body

/-- If a body can be built, it declares some names and has some instances, in order. -/
def Declares (b : Body) (names : List String) (instances : List (String × String × List (String × Expr))) :
    Prop :=
  ∀ items, b = .ok items →
    items.filterMap Item.name? = names ∧ items.filterMap Item.instance? = instances

namespace Declares

variable {b : Body} {bodies : List Body} {names names' : List String}
  {instances instances' : List (String × String × List (String × Expr))} {name : String} {width : Nat}

theorem nil : (join []).Declares [] [] := by
  intro items h
  rcases Except.ok.inj h with rfl
  exact ⟨rfl, rfl⟩

theorem cons (hb : b.Declares names instances) (hbodies : (join bodies).Declares names' instances') :
    (join (b :: bodies)).Declares (names ++ names') (instances ++ instances') := by
  intro items h
  rcases Fallible.bind_ok.mp h with ⟨own, hown, h⟩
  rcases Fallible.bind_ok.mp h with ⟨more, hmore, hpure⟩
  rw [← Except.ok.inj hpure, List.filterMap_append, List.filterMap_append, (hb own hown).1,
    (hb own hown).2, (hbodies more hmore).1, (hbodies more hmore).2]
  exact ⟨rfl, rfl⟩

/-- A computation in front of a body declares nothing. -/
theorem bind {α : Type} {x : Fallible α} {f : α → Body}
    (hf : ∀ a, x = .ok a → (f a).Declares names instances) :
    Declares (x >>= f) names instances := by
  intro items h
  rcases Fallible.bind_ok.mp h with ⟨a, ha, hitems⟩
  exact hf a ha items hitems

theorem items (own : List Item) : Declares (Body.items own) (own.filterMap Item.name?)
    (own.filterMap Item.instance?) := by
  intro all h
  rcases Except.ok.inj h with rfl
  exact ⟨rfl, rfl⟩

theorem wire : (Body.wire name width).Declares [name] [] := by
  intro items h
  rw [(wire_ok h).2]
  exact ⟨rfl, rfl⟩

theorem reg : (Body.reg name width).Declares [name] [] := by
  intro items h
  rw [(reg_ok h).2]
  exact ⟨rfl, rfl⟩

theorem memory {depth : Nat} : (Body.memory name width depth).Declares [name] [] := by
  intro items h
  rw [(memory_ok h).2]
  exact ⟨rfl, rfl⟩

theorem assign {value : Expr} : (Body.assign name value).Declares [] [] := Declares.items _

theorem net {value : Expr} : (Body.net name width value).Declares [name] [] :=
  wire.cons (assign.cons nil)

theorem process {trigger : Trigger} {body : List Stmt} :
    (Body.item (.process trigger body)).Declares [] [] := Declares.items _

theorem register {initial : Expr} {updates : List (Expr × Expr)} :
    (Body.register name initial updates).Declares [] [] := Declares.items _

theorem enabled {target enable value : Expr} :
    (Body.enabled target enable value).Declares [] [] := Declares.items _

/-- Bodies that declare some names each. -/
theorem join_map {α : Type} {f : α → Body} {g : α → List String} {xs : List α}
    (h : ∀ x ∈ xs, (f x).Declares (g x) []) : (join (xs.map f)).Declares (xs.flatMap g) [] := by
  induction xs with
  | nil => exact nil
  | cons x rest ih =>
      exact cons (h x (List.mem_cons_self ..)) (ih fun y hy => h y (List.mem_cons_of_mem _ hy))

/-- Bodies that declare one name each. -/
theorem join_map_singleton {α : Type} {f : α → Body} {g : α → String} {xs : List α}
    (h : ∀ x, (f x).Declares [g x] []) : (join (xs.map f)).Declares (xs.map g) [] := by
  rw [List.map_eq_flatMap (f := g)]
  exact join_map fun x _ => h x

/-- Bodies that declare nothing. -/
theorem join_silent (h : ∀ b ∈ bodies, b.Declares [] []) : (join bodies).Declares [] [] := by
  induction bodies with
  | nil => exact nil
  | cons b rest ih =>
      exact cons (h b (List.mem_cons_self ..)) (ih fun c hc => h c (List.mem_cons_of_mem _ hc))

theorem join_map_silent {α : Type} {f : α → Body} {xs : List α} (h : ∀ x, (f x).Declares [] []) :
    (join (xs.map f)).Declares [] [] :=
  join_silent (List.forall_mem_map.mpr fun x _ => h x)

end Declares

end Body

end Rtl

end StencilRtl
