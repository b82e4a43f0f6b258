import Mathlib.Data.List.Chain
import Mathlib.Tactic.FinCases
import StencilRtl.Proofs.Netlist.Layers

/-!
# Circles of Streams

When a design is refused for a circle of streams.

A circle is told in terms of the design itself. It is a list of stream connections, each of which
ends where the next one starts and the last one where the first one starts. Two connections may
share a wire or a port of the design, or enter and leave the same component by any of its ports.
A connection from or to a queue is on no circle, and a single connection that ends where it
started is one.

Every connection on the way has passed its own check, so its ends are known, and each of them is
a node of the graph of streams unless it is a port of a queue. Two ends are at the same place
exactly when they are the same node. So circles of connections are circles of edges, and the
check finds all of these.

## Main definitions

* `SamePlace`: Ends that a stream can pass between within a clock cycle.
* `Netlist.PassesOn`: A stream connection that is not cut by a queue.
* `Netlist.HasCircle`: Stream connections that lead back to where they start.

## Theorems

* `Netlist.flowsTo_iff`: Edges are connections that pass a stream on.
* `Netlist.hasCircle_iff`: Circles of connections are ways along edges back to their start.
* `Netlist.checkAcyclic_exact`: A design is refused if and only if it has a circle.
-/

namespace StencilRtl

/-- Two endpoints at one place: the same name of the top level, or two ports of a component. -/
def SamePlace : Endpoint → Endpoint → Prop
  | .top a, .top b => a = b
  | .port i _, .port j _ => i = j
  | _, _ => False

/-- One connection ends at the place where another one starts. -/
def Meets (c d : Connection) : Prop :=
  ∃ source, d.source = .endpoint source ∧ SamePlace c.target source

namespace Netlist

variable {n : Netlist}

/-- A port of a queue. -/
def AtQueue (n : Netlist) : Endpoint → Prop
  | .top _ => False
  | .port index _ => ∃ c, n.component index = .ok c ∧ c.kind.isQueue = true

/-- A stream connection of the design that neither starts nor ends at a queue. -/
structure PassesOn (n : Netlist) (c : Connection) : Prop where
  listed : c ∈ n.connections
  stream : ∃ shape direction, n.endpoint c.target = .ok (shape, direction) ∧ shape.isStream = true
  starts : ∃ source, c.source = .endpoint source ∧ ¬n.AtQueue source
  ends : ¬n.AtQueue c.target

/-- Connections in a circle that pass a stream on. -/
def HasCircle (n : Netlist) : Prop :=
  ∃ c rest, List.IsChain Meets (c :: (rest ++ [c])) ∧ ∀ d ∈ c :: rest, n.PassesOn d

/-- A connection leads from one node to another. -/
structure Joins (n : Netlist) (c : Connection) (a b : FlowNode) : Prop where
  starts : ∃ source, c.source = .endpoint source ∧ n.flowNode source = .ok (some a)
  ends : n.flowNode c.target = .ok (some b)

/-- An endpoint that is known is a node unless it belongs to a queue. -/
theorem flowNode_of_endpoint {e : Endpoint} {found : Shape × Option Direction}
    (h : n.endpoint e = .ok found) :
    (∃ a, n.flowNode e = .ok (some a)) ∧ ¬n.AtQueue e ∨ n.flowNode e = .ok none ∧ n.AtQueue e := by
  cases e with
  | top name => exact .inl ⟨⟨_, rfl⟩, id⟩
  | port index name =>
      rcases Fallible.bind_ok.mp h with ⟨c, hc, _⟩
      -- A queue lets nothing through within a cycle, so that it is no node.
      cases hqueue : c.kind.isQueue with
      | true =>
          refine .inr ⟨Fallible.bind_ok.mpr ⟨c, hc, ?_⟩, c, hc, hqueue⟩
          rw [hqueue]
          rfl
      | false =>
          refine .inl ⟨⟨.component index, Fallible.bind_ok.mpr ⟨c, hc, ?_⟩⟩, ?_⟩
          · rw [hqueue]
            rfl
          · rintro ⟨d, hd, hqueue'⟩
            rcases Except.ok.inj (hc.symm.trans hd) with rfl
            exact absurd (hqueue.symm.trans hqueue') (by simp)

/-- A node is not a port of a queue. -/
theorem not_atQueue_of_flowNode {e : Endpoint} {a : FlowNode} (h : n.flowNode e = .ok (some a)) :
    ¬n.AtQueue e := by
  cases e with
  | top name => exact id
  | port index name =>
      rintro ⟨c, hc, hqueue⟩
      exact absurd ((flowNode_port h hc).2.symm.trans hqueue) (by simp)

/-- Endpoints are at the same place if and only if they are the same node. -/
theorem samePlace_iff {e e' : Endpoint} {a b : FlowNode} (ha : n.flowNode e = .ok (some a))
    (hb : n.flowNode e' = .ok (some b)) : SamePlace e e' ↔ a = b := by
  cases e with
  | top name =>
      rcases Except.ok.inj ha with ⟨⟩
      cases e' with
      -- A port of the top module is never at the place of a component.
      | top name' =>
          rcases Except.ok.inj hb with ⟨⟩
          exact FlowNode.top.injEq _ _ ▸ Iff.rfl
      | port index port =>
          rcases flowNode_port_eq hb with rfl
          exact ⟨False.elim, fun h => nomatch h⟩
  | port index port =>
      rcases flowNode_port_eq ha with rfl
      cases e' with
      | top name =>
          rcases Except.ok.inj hb with ⟨⟩
          exact ⟨False.elim, fun h => nomatch h⟩
      | port index' port' =>
          rcases flowNode_port_eq hb with rfl
          exact FlowNode.component.injEq _ _ ▸ Iff.rfl

/-- A connection meets the next one if and only if it ends at the node where that one starts. -/
theorem meets_iff {c d : Connection} {a b b' z : FlowNode} (hc : n.Joins c a b)
    (hd : n.Joins d b' z) : Meets c d ↔ b = b' := by
  rcases hd.starts with ⟨source, hsource, hstart⟩
  refine ⟨fun ⟨source', hsource', hsame⟩ => ?_, fun hsame => ?_⟩
  · rcases Source.endpoint.inj (hsource.symm.trans hsource') with rfl
    exact (samePlace_iff hc.ends hstart).mp hsame
  · exact ⟨source, hsource, (samePlace_iff hc.ends hstart).mpr hsame⟩

section Checked

/- The ends of a connection that passes its own check are known. -/
variable {c : Connection} (hchecked : n.checkConnection c = .ok ())

include hchecked

theorem endpoint_of_checkConnection :
    (∃ found, n.endpoint c.target = .ok found) ∧
      ∀ source, c.source = .endpoint source → ∃ found, n.endpoint source = .ok found := by
  rcases Fallible.bind_ok.mp hchecked with ⟨⟨shape, direction⟩, htarget, h⟩
  refine ⟨⟨_, htarget⟩, fun source hsource => ?_⟩
  simp only [hsource] at h
  split at h
  · rcases Fallible.bind_ok.mp h with ⟨base, _, h⟩
    exact absurd h (by simp [malformed])
  · rcases Fallible.bind_ok.mp h with ⟨found, hfound, _⟩
    exact ⟨found, hfound⟩

/-- So the connection has a list of edges. -/
theorem flowEdge_returns : ∃ edges, n.flowEdge c = .ok edges := by
  rcases endpoint_of_checkConnection hchecked with ⟨⟨⟨shape, direction⟩, htarget⟩, hsources⟩
  cases hsource : c.source with
  | constant value => exact ⟨[], by rw [flowEdge, hsource]⟩
  | endpoint source =>
      rcases hsources source hsource with ⟨found, hfound⟩
      -- Whether an endpoint is a node or belongs to a queue is answered either way.
      have hnode {e : Endpoint} {found} (h : n.endpoint e = .ok found) :
          ∃ node, n.flowNode e = .ok node := by
        rcases flowNode_of_endpoint h with ⟨⟨a, ha⟩, _⟩ | ⟨hnone, _⟩
        exacts [⟨_, ha⟩, ⟨_, hnone⟩]
      rcases hnode hfound with ⟨start, hstart⟩
      rcases hnode htarget with ⟨finish, hfinish⟩
      simp only [flowEdge, hsource, htarget]
      split
      · rw [hstart, hfinish]
        cases start <;> cases finish <;> exact ⟨_, rfl⟩
      · exact ⟨[], rfl⟩

/-- A connection that passes a stream on joins two nodes. -/
theorem PassesOn.joins (h : n.PassesOn c) : ∃ a b, n.Joins c a b := by
  rcases h.starts with ⟨source, hsource, hstart⟩
  rcases endpoint_of_checkConnection hchecked with ⟨⟨target, htarget⟩, hsources⟩
  rcases hsources source hsource with ⟨found, hfound⟩
  rcases flowNode_of_endpoint hfound with ⟨⟨a, ha⟩, _⟩ | ⟨_, hqueue⟩
  · rcases flowNode_of_endpoint htarget with ⟨⟨b, hb⟩, _⟩ | ⟨_, hqueue⟩
    · exact ⟨a, b, ⟨source, hsource, ha⟩, hb⟩
    · exact absurd hqueue h.ends
  · exact absurd hqueue hstart

end Checked

/-- Edges are connections that pass a stream on. -/
theorem flowsTo_iff {a b : FlowNode} :
    n.FlowsTo a b ↔ ∃ c, n.PassesOn c ∧ n.Joins c a b := by
  refine ⟨fun ⟨c, hc, edges, hedges, hmem⟩ => ?_, fun ⟨c, hpasses, hjoins⟩ => ?_⟩
  · rcases flowEdge_ok hedges hmem with
      ⟨source, shape, direction, hsource, htarget, hstream, ha, hb⟩
    exact ⟨c, ⟨hc, ⟨shape, direction, htarget, hstream⟩,
      ⟨source, hsource, not_atQueue_of_flowNode ha⟩, not_atQueue_of_flowNode hb⟩,
      ⟨source, hsource, ha⟩, hb⟩
  · rcases hpasses.stream with ⟨shape, direction, htarget, hstream⟩
    rcases hjoins.starts with ⟨source, hsource, ha⟩
    refine ⟨c, hpasses.listed, [(a, b)], ?_, List.mem_singleton_self _⟩
    simp only [flowEdge, hsource, htarget, hstream, ha, hjoins.ends]
    rfl

/-- Ways along edges are chains of connections that pass a stream on. -/
theorem exists_chain_of_transGen {a b : FlowNode} (h : Relation.TransGen n.FlowsTo a b) :
    ∃ c rest b' a', List.IsChain Meets (c :: rest) ∧ (∀ d ∈ c :: rest, n.PassesOn d) ∧
      n.Joins c a b' ∧ n.Joins ((c :: rest).getLast (List.cons_ne_nil _ _)) a' b := by
  induction h using Relation.TransGen.head_induction_on with
  | @single a hedge =>
      rcases flowsTo_iff.mp hedge with ⟨c, hpasses, hjoins⟩
      exact ⟨c, [], b, a, .singleton c, List.forall_mem_singleton.mpr hpasses, hjoins, hjoins⟩
  | @head a x hedge _ ih =>
      rcases flowsTo_iff.mp hedge with ⟨c, hpasses, hjoins⟩
      rcases ih with ⟨next, rest, b', a', hchain, hall, hfirst, hlast⟩
      refine ⟨c, next :: rest, x, a', .cons_cons ?_ hchain,
        List.forall_mem_cons.mpr ⟨hpasses, hall⟩, hjoins, ?_⟩
      · exact (meets_iff hjoins hfirst).mpr rfl
      · rwa [List.getLast_cons (List.cons_ne_nil _ _)]

/-- Chains of connections that pass a stream on are ways along edges. -/
theorem transGen_of_chain (hchecked : ∀ c ∈ n.connections, n.checkConnection c = .ok ())
    {c last : Connection} {rest : List Connection} {a b b' a' : FlowNode}
    (hchain : List.IsChain Meets (c :: (rest ++ [last])))
    (hall : ∀ d ∈ c :: (rest ++ [last]), n.PassesOn d) (hfirst : n.Joins c a b')
    (hlast : n.Joins last a' b) : Relation.TransGen n.FlowsTo a a' := by
  induction rest generalizing c a b' with
  | nil =>
      have hmeets := (meets_iff hfirst hlast).mp (List.isChain_cons_cons.mp hchain).1
      rw [← hmeets]
      exact .single (flowsTo_iff.mpr ⟨c, hall c (List.mem_cons_self ..), hfirst⟩)
  | cons next rest ih =>
      rcases List.isChain_cons_cons.mp hchain with ⟨hmeets, hchain⟩
      rcases List.forall_mem_cons.mp hall with ⟨hpasses, hall⟩
      have hnext := hall next (List.mem_cons_self ..)
      rcases hnext.joins (hchecked _ hnext.listed) with ⟨x, y, hjoins⟩
      rcases (meets_iff hfirst hjoins).mp hmeets with rfl
      exact .head (flowsTo_iff.mpr ⟨c, hpasses, hfirst⟩) (ih hchain hall hjoins)

/-- A circle of connections is a way along edges back to where it started. -/
theorem hasCircle_iff (hchecked : ∀ c ∈ n.connections, n.checkConnection c = .ok ()) :
    n.HasCircle ↔ ∃ a, Relation.TransGen n.FlowsTo a a := by
  refine ⟨fun ⟨c, rest, hchain, hall⟩ => ?_, fun ⟨a, hcycle⟩ => ?_⟩
  · have hc := hall c (List.mem_cons_self ..)
    rcases hc.joins (hchecked _ hc.listed) with ⟨a, b, hjoins⟩
    refine ⟨a, transGen_of_chain hchecked hchain (fun d hd => ?_) hjoins hjoins⟩
    rcases List.mem_cons.mp hd with rfl | hd
    · exact hc
    · rcases List.mem_append.mp hd with hd | hd
      · exact hall d (List.mem_cons_of_mem _ hd)
      · exact List.mem_singleton.mp hd ▸ hc
  · rcases exists_chain_of_transGen hcycle with ⟨c, rest, b', a', hchain, hall, hfirst, hlast⟩
    -- The last connection ends at the node where the first one starts, which closes the chain.
    refine ⟨c, rest, ?_, hall⟩
    rw [← List.cons_append]
    refine hchain.append (.singleton c) fun last hlast' first hfirst' => ?_
    rw [List.getLast?_eq_some_getLast (List.cons_ne_nil _ _)] at hlast'
    rcases Option.mem_some.mp hlast' with rfl
    rcases Option.mem_some.mp hfirst' with rfl
    exact (meets_iff hlast hfirst).mpr rfl

/-- Once the connections have been checked one by one, a design is refused for a circle of
streams if and only if it has one, and it passes if and only if it has none. -/
theorem checkAcyclic_exact (n : Netlist)
    (hchecked : ∀ c ∈ n.connections, n.checkConnection c = .ok ()) :
    (n.checkAcyclic = malformed .combinationalCycle ↔ n.HasCircle) ∧
      (n.checkAcyclic = .ok () ↔ ¬n.HasCircle) := by
  -- All lists of edges are there, so the check comes down to what is left of the graph.
  rcases Fallible.mapM_returns fun c hc => flowEdge_returns (hchecked c hc) with ⟨edges, hedges⟩
  have hrefused : n.checkAcyclic =
      if cyclicCore edges.flatten = [] then .ok () else malformed .combinationalCycle := by
    rw [checkAcyclic, hedges]
    rfl
  have hcore : cyclicCore edges.flatten = [] ↔ ¬n.HasCircle := by
    have hflows : (fun a b => (a, b) ∈ edges.flatten) = n.FlowsTo :=
      funext₂ fun _ _ => propext (mem_edges_iff hedges)
    rw [cyclicCore_eq_nil_iff, hasCircle_iff hchecked, hflows, not_exists]
  rw [hrefused]
  by_cases hnil : cyclicCore edges.flatten = []
  · have hnone := hcore.mp hnil
    rw [if_pos hnil]
    exact ⟨iff_of_false (by simp [malformed]) hnone, iff_of_true rfl hnone⟩
  · have hcircle := not_not.mp fun hnone => hnil (hcore.mpr hnone)
    rw [if_neg hnil]
    exact ⟨iff_of_true rfl hcircle, iff_of_false (by simp [malformed]) (not_not.mpr hcircle)⟩

/-- Two line buffers that feed each other over a pair of wires. -/
def mutualBuffers : Netlist :=
  let shape := Shape.stream (.uint 8) [1, 1]
  { Netlist.empty "ring" with
    components := ["x", "y"].map fun name =>
      ⟨name, .lineBuffer [4, 4], [("in", shape)], [("out", shape)]⟩
    wires := [("a", shape), ("b", shape)]
    connections :=
      [⟨.top "a", .endpoint (.port 0 "out")⟩, ⟨.port 1 "in", .endpoint (.top "a")⟩,
        ⟨.top "b", .endpoint (.port 1 "out")⟩, ⟨.port 0 "in", .endpoint (.top "b")⟩] }

/-- Their connections are in order one by one, but all four of them are a circle. -/
theorem checkAcyclic_exact_mutualBuffers :
    (∀ c ∈ mutualBuffers.connections, mutualBuffers.checkConnection c = .ok ()) ∧
      mutualBuffers.HasCircle ∧
        mutualBuffers.checkAcyclic = malformed .combinationalCycle := by
  have hchecked : ∀ c ∈ mutualBuffers.connections, mutualBuffers.checkConnection c = .ok () := by
    decide +kernel
  -- No queue breaks the circle, as there is none in the design.
  have hqueue : ∀ e, ¬mutualBuffers.AtQueue e := by
    rintro (name | ⟨index, port⟩) hqueue
    · exact hqueue
    · rcases hqueue with ⟨c, hc, hqueue⟩
      have hnone : ∀ c ∈ mutualBuffers.components, c.kind.isQueue = false := by decide
      exact absurd ((hnone c (List.mem_of_getElem? (component_ok.mp hc))).symm.trans hqueue)
        (by simp)
  have hcircle : mutualBuffers.HasCircle := by
    refine ⟨_, [_, _, _], ?_, fun d (hd : d ∈ mutualBuffers.connections) => ?_⟩
    · exact .cons_cons ⟨.top "a", rfl, rfl⟩ (.cons_cons ⟨.port 1 "out", rfl, rfl⟩
        (.cons_cons ⟨.top "b", rfl, rfl⟩ (.cons_cons ⟨.port 0 "out", rfl, rfl⟩ (.singleton _))))
    · refine ⟨hd, ?_, ?_, hqueue _⟩
      · fin_cases hd <;> exact ⟨_, _, rfl, rfl⟩
      · fin_cases hd <;> exact ⟨_, rfl, hqueue _⟩
  exact ⟨hchecked, hcircle, (checkAcyclic_exact mutualBuffers hchecked).1.mpr hcircle⟩

end Netlist

end StencilRtl
