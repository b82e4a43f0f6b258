import StencilRtl.Proofs.Netlist.Sites

/-!
# Resolved Connections

What the assignments of a checked design are.

A connection that has passed its check leads from a site that drives to one that can be
driven, and both have the same lines. What it asks for is then told line by line, and
`Asks` says so without looking at endpoints any more. All that connections ask for is
put into one list, in which a later assignment of a signal takes the place of an earlier
one, and the ready lines of idle wires are tied low at the end.

The list that comes out assigns no signal twice, has nothing in it that was not asked
for, and assigns every signal that something was asked for. Whether it is what a
particular connection asked for is another matter, since a later connection may have
taken it back.

## Main definitions

* `Site.joined`, `Site.held`, `Site.tied`: What a connection and an idle wire ask for.
* `Netlist.Asks`: What a checked connection asks for.
* `Netlist.idleSites`: The streams nobody is known to consume.

## Theorems

* `Assignments.nodup_putAll`, `Assignments.mem_targets_putAll`: The list of assignments.
* `Netlist.asks_of_checkConnection`: Checked connections join sites line by line.
* `Netlist.resolve_ok`: What the assignments of a design are made of.
-/

namespace StencilRtl

namespace Assignments

/-- The signals that are assigned. -/
def targets (a : Assignments) : List String := a.map Prod.fst

variable {a : Assignments} {pairs : List (String × Driver)} {p : String × Driver}

theorem mem_put {signal : String} {driver : Driver} :
    p ∈ a.put signal driver ↔ p ∈ a ∧ p.1 ≠ signal ∨ p = (signal, driver) := by
  rw [put, List.mem_append, List.mem_filter, List.mem_singleton, decide_eq_true_eq]

theorem putAll_cons {q : String × Driver} :
    a.putAll (q :: pairs) = (a.put q.1 q.2).putAll pairs := rfl

/-- Nothing is assigned twice. -/
theorem nodup_putAll (h : a.targets.Nodup) : (a.putAll pairs).targets.Nodup := by
  induction pairs generalizing a with
  | nil => exact h
  | cons q rest ih =>
      rw [putAll_cons]
      refine ih ?_
      rw [targets, put, List.map_append, List.map_singleton]
      refine List.nodup_append.mpr ⟨h.sublist (List.filter_sublist.map _),
        List.pairwise_singleton .., fun x hx y hy => ?_⟩
      rcases List.mem_map.mp hx with ⟨r, hr, rfl⟩
      rw [List.mem_singleton.mp hy]
      exact of_decide_eq_true (List.mem_filter.mp hr).2

/-- Nothing is assigned that was not asked for. -/
theorem mem_of_mem_putAll (h : p ∈ a.putAll pairs) : p ∈ a ∨ p ∈ pairs := by
  induction pairs generalizing a with
  | nil => exact .inl h
  | cons q rest ih =>
      rcases ih (putAll_cons ▸ h) with hput | hrest
      · rcases mem_put.mp hput with ⟨hold, _⟩ | rfl
        · exact .inl hold
        · exact .inr (List.mem_cons_self ..)
      · exact .inr (List.mem_cons_of_mem _ hrest)

/-- A signal is assigned if something was asked for it. -/
theorem mem_targets_putAll {signal : String} :
    signal ∈ (a.putAll pairs).targets ↔ signal ∈ a.targets ∨ signal ∈ pairs.map Prod.fst := by
  induction pairs generalizing a with
  | nil => exact ⟨.inl, fun h => h.resolve_right List.not_mem_nil⟩
  | cons q rest ih =>
      have hput : signal ∈ (a.put q.1 q.2).targets ↔ signal ∈ a.targets ∨ signal = q.1 := by
        refine ⟨fun h => ?_, fun h => ?_⟩
        · rcases List.mem_map.mp h with ⟨r, hr, rfl⟩
          rcases mem_put.mp hr with ⟨hold, _⟩ | rfl
          · exact .inl (List.mem_map_of_mem hold)
          · exact .inr rfl
        · by_cases hsame : signal = q.1
          · exact hsame ▸ List.mem_map_of_mem (mem_put.mpr (.inr rfl))
          · rcases List.mem_map.mp (h.resolve_right hsame) with ⟨r, hr, rfl⟩
            exact List.mem_map_of_mem (mem_put.mpr (.inl ⟨hr, hsame⟩))
      rw [putAll_cons, ih, hput, List.map_cons, List.mem_cons, or_assoc]

end Assignments

namespace Site

/-- What joining two sites asks for: the forward lines of the target are driven by the
    source, and the others the other way round. -/
def joined (target source : Site) : Assignments :=
  target.shape.lines.map fun l =>
    if l.backward then (source.name l, .signal (target.name l))
    else (target.name l, .signal (source.name l))

/-- What holding a site at a constant asks for. -/
def held (target : Site) (value : Nat) : Assignments :=
  (target.shape.lines.filter fun l => !l.backward).map fun l =>
    (target.name l, .constant value l.width)

/-- What tying the ready line of a stream low asks for. -/
def tied (s : Site) : Assignments :=
  (s.shape.lines.filter fun l => l.backward).map fun l => (s.name l, .constant 0 1)

end Site

namespace Netlist

/-- What a checked connection asks for. -/
inductive Asks (n : Netlist) : Connection → Assignments → Prop where
  | held {target : Endpoint} {t : Site} (ht : n.Resolves target t)
      (hdriven : canBeDriven target t.direction = true) (value : Nat) :
      Asks n ⟨target, .constant value⟩ (t.held value)
  | joined {target source : Endpoint} {t s : Site} (ht : n.Resolves target t)
      (hdriven : canBeDriven target t.direction = true) (hs : n.Resolves source s)
      (hdrives : canDrive source s.direction = true) (hlines : t.shape.lines = s.shape.lines) :
      Asks n ⟨target, .endpoint source⟩ (t.joined s)

variable {n : Netlist}

/-- What the two sides of a checked connection are. -/
theorem checkConnection_ok {c : Connection} (h : n.checkConnection c = .ok ()) :
    ∃ t, n.Resolves c.target t ∧ canBeDriven c.target t.direction = true ∧
      ∀ source, c.source = .endpoint source → ∃ s, n.Resolves source s ∧
        canDrive source s.direction = true ∧ t.shape.lines = s.shape.lines := by
  rcases Fallible.bind_ok.mp h with ⟨⟨shape, port⟩, hshape, h⟩
  rcases exists_resolves hshape with ⟨t, ht, rfl, rfl⟩
  simp only [] at h
  split at h
  · rcases Fallible.bind_ok.mp h with ⟨base, _, h⟩
    exact absurd h (by simp [malformed])
  next hdriven =>
  -- A constant has no site. Of an endpoint the shape is compared with that of the target.
  refine ⟨t, ht, by simpa using hdriven, fun source hsource => ?_⟩
  rw [hsource] at h
  rcases Fallible.bind_ok.mp h with ⟨⟨shape', port'⟩, hshape', h⟩
  rcases exists_resolves hshape' with ⟨s, hs, rfl, rfl⟩
  simp only [] at h
  split at h
  · rcases Fallible.bind_ok.mp h with ⟨base, _, h⟩
    exact absurd h (by simp [malformed])
  next hdrives =>
  rcases Fallible.bind_ok.mp h with ⟨same, hsame, h⟩
  split at h
  · next htrue =>
    exact ⟨s, hs, by simpa using hdrives, lines_eq_of_carrySame (htrue ▸ hsame)⟩
  · rcases Fallible.bind_ok.mp h with ⟨base, _, h⟩
    rcases Fallible.bind_ok.mp h with ⟨base', _, h⟩
    exact absurd h (by simp [malformed])

/-- Checked connections join sites line by line. -/
theorem asks_of_checkConnection {c : Connection} {pairs : Assignments}
    (hcheck : n.checkConnection c = .ok ()) (h : n.connectionAssignments c = .ok pairs) :
    n.Asks c pairs := by
  rcases checkConnection_ok hcheck with ⟨t, ht, hdriven, hsource⟩
  rcases Fallible.bind_ok.mp h with ⟨targets, htargets, h⟩
  rcases endpointSignals_ok htargets with ⟨t', ht', rfl⟩
  -- The endpoints are resolved once more when lines are joined, to the same sites.
  rcases ht.unique ht' with rfl
  rcases c with ⟨target, source⟩
  cases source with
  | constant value =>
      have hpairs : pairs = t.held value := by
        rw [← Except.ok.inj h, List.filter_map, List.map_map]
        rfl
      rw [hpairs]
      exact .held ht hdriven value
  | endpoint source =>
      rcases hsource source rfl with ⟨s, hs, hdrives, hlines⟩
      rcases Fallible.bind_ok.mp h with ⟨sources, hsources, h⟩
      rcases endpointSignals_ok hsources with ⟨s', hs', rfl⟩
      rcases hs.unique hs' with rfl
      have hpairs : pairs = t.joined s := by
        rw [← Except.ok.inj h, ← hlines, List.zip_map', List.map_map]
        rfl
      rw [hpairs]
      exact .joined ht hdriven hs hdrives hlines

/-- The streams nobody is known to consume: what is consumed is known by name. -/
def idleSites (n : Netlist) (consumed : List String) : List Site :=
  n.wireSites.filter fun s => s.shape.isStream && s.base ∉ consumed

theorem tiedLow_ok {wire : String × Shape} {pairs : Assignments} (h : tiedLow wire = .ok pairs) :
    pairs = Site.tied ⟨.top wire.1, wire.1, wire.2, none⟩ := by
  rcases Fallible.bind_ok.mp h with ⟨signals, hsignals, h⟩
  rw [← Except.ok.inj h, Shape.signals_ok hsignals, List.filter_map, List.map_map]
  rfl

/-- What is checked of the connections, the wires and the ports of a design. -/
theorem validate_ok (h : n.validate = .ok ()) :
    (∀ c ∈ n.connections, n.checkConnection c = .ok ()) ∧
      (∀ wire ∈ n.wires, n.isDriven (.top wire.1) = true) ∧
      ∀ index c, n.component index = .ok c → ∀ port ∈ c.ports, n.isConnected index port = true := by
  rcases Fallible.bind_ok.mp h with ⟨_, _, h⟩
  rcases Fallible.bind_ok.mp h with ⟨_, hconnections, h⟩
  rcases Fallible.bind_ok.mp h with ⟨_, hwires, h⟩
  rcases Fallible.bind_ok.mp h with ⟨_, hcomponents, _⟩
  refine ⟨Fallible.forM_ok hconnections, fun wire hwire => ?_, fun index c hc port hport => ?_⟩
  · have hcheck := Fallible.forM_ok hwires wire hwire
    simp only [checkWire] at hcheck
    split at hcheck
    · exact absurd hcheck (by simp [malformed])
    · next hdriven => simpa using hdriven
  -- A component is checked under its number.
  · have hmem : (c, index) ∈ n.components.zipIdx :=
      List.mem_zipIdx_iff_getElem?.mpr (component_ok.mp hc)
    have hcheck := Fallible.forM_ok hcomponents (c, index) hmem
    simp only [checkComponent] at hcheck
    split at hcheck
    · exact absurd hcheck (by simp [malformed])
    · next hnone => simpa using List.find?_eq_none.mp hnone port hport

/-- What the assignments of a checked design are made of. -/
theorem resolve_ok {resolved : Assignments} {warnings : List Warning}
    (hvalid : n.validate = .ok ()) (h : n.resolve = .ok (resolved, warnings)) :
    ∃ driven consumed, List.Forall₂ n.Asks n.connections driven ∧
      n.consumedBases = .ok consumed ∧
      resolved = Assignments.putAll []
        (driven.flatten ++ (n.idleSites consumed).flatMap Site.tied) := by
  rcases Fallible.bind_ok.mp h with ⟨driven, hdriven, h⟩
  rcases Fallible.bind_ok.mp h with ⟨idle, hidle, h⟩
  rcases Fallible.bind_ok.mp h with ⟨tied, htied, h⟩
  rcases Fallible.bind_ok.mp hidle with ⟨consumed, hconsumed, hidle⟩
  rcases Except.ok.inj h with ⟨⟩
  have hchecked := (validate_ok hvalid).1
  have hasks : List.Forall₂ n.Asks n.connections driven := by
    have hboth := (List.forall₂_and_left _ _).mpr ⟨hchecked, Fallible.mapM_ok hdriven⟩
    exact hboth.imp fun _ _ hc => asks_of_checkConnection hc.1 hc.2
  refine ⟨driven, consumed, hasks, hconsumed, ?_⟩
  -- What is tied low are the lines of the idle wires, in their order.
  have htied' : tied = idle.map fun wire => Site.tied ⟨.top wire.1, wire.1, wire.2, none⟩ :=
    Fallible.mapM_eq_map (fun _ _ _ hwire => tiedLow_ok hwire) htied
  have hsites : n.idleSites consumed
      = idle.map fun wire => ⟨.top wire.1, wire.1, wire.2, none⟩ := by
    rw [← Except.ok.inj hidle, idleSites, wireSites, List.filter_map]
    rfl
  rw [htied', hsites, List.flatMap_map, List.flatMap_def]

end Netlist

end StencilRtl
