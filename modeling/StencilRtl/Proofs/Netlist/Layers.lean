import StencilRtl.Proofs.Netlist.Core
import StencilRtl.Proofs.Netlist.Producers

/-!
# Layers of a Design

Why no stream runs in a circle within a clock cycle.

Streams run from the inputs of a design over wires into components, and from there through
queues back onto wires or out to an output. A queue breaks the path, so what is left without
queues runs downwards: from inputs to wires, from a wire to one that was declared later, from
wires to components, and from components to outputs. Each node has a level in that order, and
the edges of the graph lead from a level to a higher one.

`Flows` says of a connection why it does not lead upwards. It speaks of declarations only,
which stay when a design grows, while the level of a node does not: there may be more wires
tomorrow. So it is `Flows` that is kept while a design is put together, and levels are only
told when it is finished.

## Main definitions

* `Netlist.Flows`: A connection that does not lead upwards.
* `Netlist.level`: The level of a node.
* `Netlist.FlowsTo`: An edge of the graph of streams.

## Theorems

* `not_transGen_of_level`: No way back along edges that lead to higher levels.
* `Netlist.level_lt_of_flowEdge`: The edges of a connection that does not lead upwards.
-/

namespace StencilRtl

/-- Along edges that lead to higher levels there is no way back. -/
theorem not_transGen_of_level {α : Type} {level : α → Nat} {R : α → α → Prop}
    (h : ∀ a b, R a b → level a < level b) (a : α) : ¬Relation.TransGen R a a := by
  have hrises : ∀ b, Relation.TransGen R a b → level a < level b := by
    intro b hpath
    induction hpath with
    | single hab => exact h _ _ hab
    | tail _ hbc ih => exact Nat.lt_trans ih (h _ _ hbc)
  exact fun hcycle => Nat.lt_irrefl _ (hrises a hcycle)

namespace Netlist

variable {n m : Netlist}

/-- A connection that does not lead upwards. -/
inductive Flows (n : Netlist) : Endpoint → Endpoint → Prop
  /-- What is no stream may lead anywhere. -/
  | plainWire {source : Endpoint} {name : String} {shape : Shape} (h : n.wire? name = some shape)
      (hplain : shape.isStream = false) : Flows n source (.top name)
  | plainPort {source : Endpoint} {index : Nat} {port : String} {c : Component} {shape : Shape}
      {direction : Direction} (hc : n.component index = .ok c)
      (h : c.port? port = some (shape, direction)) (hplain : shape.isStream = false) :
      Flows n source (.port index port)
  /-- So may what comes out of a queue or goes into one. -/
  | fromQueue {index : Nat} {port : String} {target : Endpoint} {c : Component}
      (hc : n.component index = .ok c) (hqueue : c.kind.isQueue = true) :
      Flows n (.port index port) target
  | intoQueue {index : Nat} {port : String} {source : Endpoint} {c : Component}
      (hc : n.component index = .ok c) (hqueue : c.kind.isQueue = true) :
      Flows n source (.port index port)
  /-- Inputs and wires lead into components, -/
  | enters {index : Nat} {name port : String} {shape : Shape}
      (h : n.port? name = some (shape, .input)) : Flows n (.top name) (.port index port)
  | feeds {index : Nat} {name port : String} {shape : Shape} (h : n.wire? name = some shape) :
      Flows n (.top name) (.port index port)
  /-- components lead to outputs, -/
  | leaves {index : Nat} {name port : String} {shape : Shape}
      (h : n.port? name = some (shape, .output)) : Flows n (.port index port) (.top name)
  /-- and a wire leads to one that was declared later. -/
  | renames {name name' : String} {shape : Shape} {before : List (String × Shape)}
      (hbefore : before <+: n.wires) (h : name ∈ before.map Prod.fst)
      (hnew : name' ∉ before.map Prod.fst) (h' : n.wire? name' = some shape) :
      Flows n (.top name) (.top name')

/-- What has been declared stays declared. -/
theorem Flows.extend {source target : Endpoint} (h : n.Flows source target) (hext : n.Extends m)
    (hwires : n.wires <+: m.wires) : m.Flows source target := by
  cases h with
  | plainWire hwire hplain => exact .plainWire (hext.wire _ _ hwire) hplain
  | plainPort hc hport hplain =>
      rcases hext.component _ _ hc with ⟨d, hd, _, _, hports⟩
      exact .plainPort hd (hports _ _ hport) hplain
  | fromQueue hc hqueue =>
      rcases hext.component _ _ hc with ⟨d, hd, _, hkind, _⟩
      exact .fromQueue hd (hkind ▸ hqueue)
  | intoQueue hc hqueue =>
      rcases hext.component _ _ hc with ⟨d, hd, _, hkind, _⟩
      exact .intoQueue hd (hkind ▸ hqueue)
  | enters hport => exact .enters (hext.port _ _ hport)
  | feeds hwire => exact .feeds (hext.wire _ _ hwire)
  | leaves hport => exact .leaves (hext.port _ _ hport)
  -- The wire that is renamed was declared before the new one, and still is.
  | renames hbefore hname hnew hwire =>
      exact .renames (hbefore.trans hwires) hname hnew (hext.wire _ _ hwire)

/-- The level of a node: inputs, wires in the order of their declarations, components, outputs. -/
def level (n : Netlist) : FlowNode → Nat
  | .top name =>
      match n.wire? name with
      | some _ => 1 + n.wires.findIdx fun w => w.1 = name
      | none =>
          match n.port? name with
          | some (_, .output) => n.wires.length + 2
          | _ => 0
  | .component _ => n.wires.length + 1

/-- An edge of the graph of streams. -/
def FlowsTo (n : Netlist) (a b : FlowNode) : Prop :=
  ∃ c ∈ n.connections, ∃ edges, n.flowEdge c = .ok edges ∧ (a, b) ∈ edges

/-- No connection leads upwards. -/
structure Layered (n : Netlist) : Prop where
  apart : n.Apart
  flows : ∀ c ∈ n.connections, ∀ source, c.source = .endpoint source → n.Flows source c.target

theorem level_wire {name : String} {shape : Shape} (h : n.wire? name = some shape) :
    n.level (.top name) = 1 + n.wires.findIdx (fun w => w.1 = name) ∧
      n.wires.findIdx (fun w => w.1 = name) < n.wires.length := by
  rw [level, h]
  rcases Option.map_eq_some_iff.mp h with ⟨w, hw, _⟩
  have hname := List.find?_some hw
  exact ⟨rfl, List.findIdx_lt_length_of_exists ⟨w, List.mem_of_find?_eq_some hw, hname⟩⟩

/-- A wire that was declared later is on a higher level. -/
theorem level_renames {name name' : String} {shape : Shape} {before : List (String × Shape)}
    (hbefore : before <+: n.wires) (h : name ∈ before.map Prod.fst)
    (hnew : name' ∉ before.map Prod.fst) (h' : n.wire? name' = some shape) :
    n.level (.top name) < n.level (.top name') := by
  rcases exists_wire?_iff.mpr ((hbefore.map Prod.fst).subset h) with ⟨found, hfound⟩
  rcases hbefore with ⟨rest, hrest⟩
  rcases List.mem_map.mp h with ⟨w, hw, hsame⟩
  -- The one is found among the earlier wires and the other one only behind them.
  have hearlier : before.findIdx (fun w => w.1 = name) < before.length :=
    List.findIdx_lt_length_of_exists ⟨w, hw, decide_eq_true hsame⟩
  have hlater : before.findIdx (fun w => w.1 = name') = before.length :=
    List.findIdx_eq_length_of_false fun v hv =>
      decide_eq_false fun hv' => hnew (hv' ▸ List.mem_map_of_mem hv)
  rw [(level_wire hfound).1, (level_wire h').1, ← hrest, List.findIdx_append, List.findIdx_append,
    if_pos hearlier, hlater, if_neg (Nat.lt_irrefl _)]
  omega

/-- A connection that has an edge joins two nodes, and it carries a stream. -/
theorem flowEdge_ok {c : Connection} {edges : List (FlowNode × FlowNode)} {a b : FlowNode}
    (h : n.flowEdge c = .ok edges) (hedge : (a, b) ∈ edges) :
    ∃ source shape direction, c.source = .endpoint source ∧
      n.endpoint c.target = .ok (shape, direction) ∧ shape.isStream = true ∧
      n.flowNode source = .ok (some a) ∧ n.flowNode c.target = .ok (some b) := by
  unfold flowEdge at h
  -- Constants, ends that are no streams and ends that are no nodes make no edge.
  split at h
  · rcases Except.ok.inj h with rfl
    exact absurd hedge List.not_mem_nil
  next source hsource =>
  split at h
  · exact absurd h (by simp [giveWay])
  · rcases Except.ok.inj h with rfl
    exact absurd hedge List.not_mem_nil
  next shape direction hshape =>
  split at h
  · next hstream =>
    rcases Fallible.bind_ok.mp h with ⟨start, hstart, h⟩
    rcases Fallible.bind_ok.mp h with ⟨finish, hfinish, h⟩
    split at h
    · rcases Except.ok.inj h with rfl
      rcases Prod.mk.inj (List.mem_singleton.mp hedge) with ⟨rfl, rfl⟩
      exact ⟨source, shape, direction, hsource, hshape, hstream, hstart, hfinish⟩
    · rcases Except.ok.inj h with rfl
      exact absurd hedge List.not_mem_nil
  · rcases Except.ok.inj h with rfl
    exact absurd hedge List.not_mem_nil

/-- The edges that are checked are the edges of the graph. -/
theorem mem_edges_iff {edges : List (List (FlowNode × FlowNode))}
    (h : n.connections.mapM n.flowEdge = .ok edges) {a b : FlowNode} :
    (a, b) ∈ edges.flatten ↔ n.FlowsTo a b := by
  refine ⟨fun hmem => ?_, fun ⟨c, hc, own, hown, hmem⟩ => ?_⟩
  · rcases List.mem_flatten.mp hmem with ⟨own, hown, hmem⟩
    rcases exists_of_forall₂ (Fallible.mapM_ok h).flip hown with ⟨c, hc, hedge⟩
    exact ⟨c, hc, own, hedge, hmem⟩
  · rcases Fallible.mem_of_mapM_ok h c hc with ⟨own', hown', hedge⟩
    rcases Except.ok.inj (hown.symm.trans hedge) with rfl
    exact List.mem_flatten.mpr ⟨own, hown', hmem⟩

/-- A component that is a node is no queue. -/
theorem flowNode_port {index : Nat} {port : String} {a : FlowNode} {c : Component}
    (h : n.flowNode (.port index port) = .ok (some a)) (hc : n.component index = .ok c) :
    a = .component index ∧ c.kind.isQueue = false := by
  rcases Fallible.bind_ok.mp h with ⟨d, hd, h⟩
  rcases Except.ok.inj (hc.symm.trans hd) with rfl
  cases hqueue : c.kind.isQueue with
  | true =>
      rw [hqueue] at h
      exact absurd h (by simp [pure, Except.pure])
  | false =>
      rw [hqueue] at h
      exact ⟨(Option.some.inj (Except.ok.inj h)).symm, rfl⟩

theorem flowNode_port_eq {index : Nat} {port : String} {a : FlowNode}
    (h : n.flowNode (.port index port) = .ok (some a)) : a = .component index := by
  rcases Fallible.bind_ok.mp h with ⟨c, hc, _⟩
  exact (flowNode_port h hc).1

theorem endpoint_port {index : Nat} {port : String} {c : Component} {shape : Shape}
    {direction : Direction} (hc : n.component index = .ok c)
    (h : c.port? port = some (shape, direction)) :
    n.endpoint (.port index port) = .ok (shape, some direction) := by
  refine Fallible.bind_ok.mpr ⟨c, hc, ?_⟩
  simp only [h]
  rfl

namespace Layered

variable (h : n.Layered)

include h

/-- Edges lead to higher levels. -/
theorem level_lt {a b : FlowNode} (hedge : n.FlowsTo a b) : n.level a < n.level b := by
  rcases hedge with ⟨⟨target, _⟩, hconnection, edges, hedges, hmem⟩
  rcases flowEdge_ok hedges hmem with
    ⟨source, shape, direction, rfl, hshape, hstream, ha, hb⟩
  have hflows := h.flows _ hconnection source rfl
  simp only [] at hshape hb hflows
  -- One case for each way to connect. Queues are no nodes, so they begin and end no edge.
  cases hflows with
  | plainWire hwire hplain =>
      rw [endpoint, hwire] at hshape
      rcases Except.ok.inj hshape with ⟨⟩
      exact absurd (hplain.symm.trans hstream) (by simp)
  | plainPort hc hport hplain =>
      rcases Except.ok.inj ((endpoint_port hc hport).symm.trans hshape) with ⟨⟩
      exact absurd (hplain.symm.trans hstream) (by simp)
  | fromQueue hc hqueue => exact absurd ((flowNode_port ha hc).2.symm.trans hqueue) (by simp)
  | intoQueue hc hqueue => exact absurd ((flowNode_port hb hc).2.symm.trans hqueue) (by simp)
  | enters hport =>
      rcases Except.ok.inj ha with ⟨⟩
      rcases flowNode_port_eq hb with rfl
      rw [level, h.apart _ _ hport, hport]
      exact Nat.succ_pos _
  | feeds hwire =>
      rcases Except.ok.inj ha with ⟨⟩
      rcases flowNode_port_eq hb with rfl
      rcases level_wire hwire with ⟨hlevel, hless⟩
      rw [hlevel, level]
      omega
  | leaves hport =>
      rcases Except.ok.inj hb with ⟨⟩
      rcases flowNode_port_eq ha with rfl
      rw [level, level, h.apart _ _ hport, hport]
      exact Nat.lt_succ_self _
  | @renames name name' _ before hbefore hname hnew hwire =>
      rcases Except.ok.inj ha with ⟨⟩
      rcases Except.ok.inj hb with ⟨⟩
      exact level_renames hbefore hname hnew hwire

/-- There is no way along edges back to where it started. -/
theorem acyclic (a : FlowNode) : ¬Relation.TransGen n.FlowsTo a a :=
  not_transGen_of_level (fun _ _ hedge => h.level_lt hedge) a

/-- So all edges are taken away. -/
theorem cyclicCore_eq {edges : List (List (FlowNode × FlowNode))}
    (hedges : n.connections.mapM n.flowEdge = .ok edges) : cyclicCore edges.flatten = [] := by
  refine cyclicCore_eq_nil_iff.mpr fun a hcycle => h.acyclic a ?_
  exact Relation.TransGen.mono (fun _ _ => (mem_edges_iff hedges).mp) _ _ hcycle

end Layered

end Netlist

end StencilRtl
