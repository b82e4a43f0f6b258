import StencilRtl.Proofs.Netlist.Resolution

/-!
# What a Design Asks For

What the connections and the idle wires of a design ask for, line by line.

A connection asks for each forward line of its target and for each backward line of its
source. On top of that the ready lines of streams are tied low if nothing drives under
their names. `Wanted` is all of it, by site and line, and the list of assignments has
one of the things wanted for every line that something is wanted for.

Every wire has a producer, so its forward lines are wanted. Its ready line is wanted by
the consumer, or tied low if there is none. Whether there is one is asked by name, and a
port of an instance may have the name of a wire. If that port drives something, a stream
that nobody consumes is taken for consumed, and nothing is wanted for its ready line.
`Masked` says so, and it is the only gap.

## Main definitions

* `Netlist.AsksFor`, `Netlist.Wanted`: What a connection and a design ask for a line.
* `Netlist.Masked`: A stream that nobody consumes is taken for consumed.
* `Netlist.OneToOne`: No endpoint is driven twice and no stream drives twice.

## Theorems

* `Netlist.exists_wanted`: Something is wanted for the lines of wires, but for masked ones.
* `Netlist.resolve_wanted`: The assignments of a design are what is wanted.
-/

namespace StencilRtl

namespace Netlist

/-- A stream that nobody consumes has the name of something else that drives. -/
def Masked (n : Netlist) (name : String) : Prop :=
  n.consumersOf (.top name) = 0 ∧
    ∃ c ∈ n.connections, ∃ source, c.source = .endpoint source ∧ n.signalBase source = .ok name

/-- No endpoint is driven by two connections, and no stream drives two. -/
structure OneToOne (n : Netlist) : Prop where
  targets : (n.connections.map Connection.target).Nodup
  streams : ∀ e shape direction, n.endpoint e = .ok (shape, direction) → shape.isStream = true →
    n.consumersOf e ≤ 1

/-- What a connection asks for a line of a site. -/
inductive AsksFor (n : Netlist) : Connection → Site → Line → String × Driver → Prop where
  | held {target : Endpoint} {t : Site} {l : Line} {value : Nat} (ht : n.Resolves target t)
      (hdriven : canBeDriven target t.direction = true) (hl : l ∈ t.shape.lines)
      (hforward : l.backward = false) :
      AsksFor n ⟨target, .constant value⟩ t l (t.name l, .constant value l.width)
  | forward {target source : Endpoint} {t s : Site} {l : Line} (ht : n.Resolves target t)
      (hdriven : canBeDriven target t.direction = true) (hs : n.Resolves source s)
      (hlines : t.shape.lines = s.shape.lines) (hl : l ∈ t.shape.lines)
      (hforward : l.backward = false) :
      AsksFor n ⟨target, .endpoint source⟩ t l (t.name l, .signal (s.name l))
  | backward {target source : Endpoint} {t s : Site} {l : Line} (ht : n.Resolves target t)
      (hs : n.Resolves source s) (hdrives : canDrive source s.direction = true)
      (hlines : t.shape.lines = s.shape.lines) (hl : l ∈ s.shape.lines)
      (hbackward : l.backward = true) :
      AsksFor n ⟨target, .endpoint source⟩ s l (s.name l, .signal (t.name l))

variable {n : Netlist}

/-- What a connection asks for is asked for line by line. -/
theorem Asks.mem_iff {c : Connection} {pairs : Assignments} (h : n.Asks c pairs)
    {q : String × Driver} : q ∈ pairs ↔ ∃ s l, n.AsksFor c s l q := by
  cases h with
  | @held target t ht hdriven value =>
      rw [Site.held, List.mem_map]
      refine ⟨?_, ?_⟩
      · rintro ⟨l, hl, rfl⟩
        rw [List.mem_filter, Bool.not_eq_true'] at hl
        exact ⟨t, l, .held ht hdriven hl.1 hl.2⟩
      · rintro ⟨s, l, hasks⟩
        cases hasks with
        | held ht' _ hl hforward =>
            rcases ht.unique ht' with rfl
            exact ⟨l, List.mem_filter.mpr ⟨hl, by rw [hforward]; rfl⟩, rfl⟩
  | @joined target source t s ht hdriven hs hdrives hlines =>
      rw [Site.joined, List.mem_map]
      refine ⟨?_, ?_⟩
      · rintro ⟨l, hl, rfl⟩
        -- A line is driven by the side it comes from, so ready lines are asked for at the source.
        cases hbackward : l.backward with
        | false =>
            rw [if_neg Bool.false_ne_true]
            exact ⟨t, l, .forward ht hdriven hs hlines hl hbackward⟩
        | true =>
            rw [if_pos rfl]
            exact ⟨s, l, .backward ht hs hdrives hlines (hlines ▸ hl) hbackward⟩
      · rintro ⟨s', l, hasks⟩
        cases hasks with
        | forward ht' _ hs' _ hl hforward =>
            rcases ht.unique ht' with rfl
            rcases hs.unique hs' with rfl
            exact ⟨l, hl, by rw [hforward, if_neg Bool.false_ne_true]⟩
        | backward ht' hs' _ _ hl hbackward =>
            rcases ht.unique ht' with rfl
            rcases hs.unique hs' with rfl
            exact ⟨l, hlines ▸ hl, by rw [hbackward, if_pos rfl]⟩

/-- Forward lines of what can be driven do not come in. -/
theorem incoming_of_canBeDriven {e : Endpoint} {s : Site} {l : Line} (he : s.endpoint = e)
    (hdriven : canBeDriven e s.direction = true) (hforward : l.backward = false) :
    s.incoming l = false := by
  rcases s with ⟨endpoint, base, shape, direction⟩
  rcases he with rfl
  rcases endpoint with name | ⟨index, name⟩ <;> rcases direction with _ | _ | _ <;>
    simp_all [canBeDriven, Site.incoming, Line.direction]

/-- Neither do backward lines of what can drive. -/
theorem incoming_of_canDrive {e : Endpoint} {s : Site} {l : Line} (he : s.endpoint = e)
    (hdrives : canDrive e s.direction = true) (hbackward : l.backward = true) :
    s.incoming l = false := by
  rcases s with ⟨endpoint, base, shape, direction⟩
  rcases he with rfl
  rcases endpoint with name | ⟨index, name⟩ <;> rcases direction with _ | _ | _ <;>
    simp_all [canDrive, Site.incoming, Line.direction, Direction.flip]

namespace AsksFor

variable {c c' : Connection} {s : Site} {l : Line} {q q' : String × Driver}

theorem mem_lines (h : n.AsksFor c s l q) : (s, l) ∈ linesOf n.sites := by
  cases h with
  | held ht _ hl _ => exact mem_linesOf.mpr ⟨ht.mem, hl⟩
  | forward ht _ _ _ hl _ => exact mem_linesOf.mpr ⟨ht.mem, hl⟩
  | backward _ hs _ _ hl _ => exact mem_linesOf.mpr ⟨hs.mem, hl⟩

theorem name_eq (h : n.AsksFor c s l q) : q.1 = s.name l := by
  cases h <;> rfl

/-- What is asked for is driven from inside. -/
theorem incoming_eq (h : n.AsksFor c s l q) : s.incoming l = false := by
  cases h with
  | held ht hdriven _ hforward => exact incoming_of_canBeDriven ht.endpoint_eq hdriven hforward
  | forward ht hdriven _ _ _ hforward =>
      exact incoming_of_canBeDriven ht.endpoint_eq hdriven hforward
  | backward _ hs hdrives _ _ hbackward =>
      exact incoming_of_canDrive hs.endpoint_eq hdrives hbackward

/-- Forward lines are asked for by the connection to a site, the others by a connection
    from it. -/
theorem side (h : n.AsksFor c s l q) :
    l.backward = false ∧ c.target = s.endpoint
      ∨ l.backward = true ∧ c.source = .endpoint s.endpoint := by
  cases h with
  | held ht _ _ hforward => exact .inl ⟨hforward, ht.endpoint_eq.symm⟩
  | forward ht _ _ _ _ hforward => exact .inl ⟨hforward, ht.endpoint_eq.symm⟩
  | backward _ hs _ _ _ hbackward =>
      exact .inr ⟨hbackward, congrArg Source.endpoint hs.endpoint_eq.symm⟩

/-- A connection asks for one thing a line. -/
theorem unique (h : n.AsksFor c s l q) (h' : n.AsksFor c s l q') : q = q' := by
  cases h with
  | held ht _ _ _ =>
      cases h' with
      | held ht' _ _ _ => rfl
  | forward ht _ hs _ _ hforward =>
      cases h' with
      | forward ht' _ hs' _ _ _ => rw [hs.unique hs']
      | backward _ _ _ _ _ hbackward => exact absurd (hforward.symm.trans hbackward) (by simp)
  | backward ht hs _ _ _ hbackward =>
      cases h' with
      | forward _ _ _ _ _ hforward => exact absurd (hforward.symm.trans hbackward) (by simp)
      | backward ht' _ _ _ _ _ => rw [ht.unique ht']

end AsksFor

/-- Wires that are told apart by their names are the sites of their names. -/
theorem Keyed.resolves (h : n.Keyed) {s : Site} (hs : s ∈ n.wireSites) :
    n.Resolves s.endpoint s := by
  rcases mem_wireSites.mp hs with ⟨name, shape, hwire, rfl⟩
  have hfound : n.wire? name = some shape := find?_fst_of_mem h hwire
  refine ⟨List.mem_append_left _ (List.mem_append_right _ hs), rfl, ?_, rfl⟩
  simp only [endpoint, hfound]

theorem mem_sites_of_mem_wireSites {s : Site} (hs : s ∈ n.wireSites) : s ∈ n.sites :=
  List.mem_append_left _ (List.mem_append_right _ hs)

/-- The names of what drives something. -/
theorem mem_consumed {consumed : List String} (h : n.consumedBases = .ok consumed)
    {name : String} : name ∈ consumed ↔
      ∃ c ∈ n.connections, ∃ source, c.source = .endpoint source ∧
        n.signalBase source = .ok name := by
  rcases Fallible.bind_ok.mp h with ⟨parts, hparts, h⟩
  have hall := Fallible.mapM_ok hparts
  rw [← Except.ok.inj h, List.mem_flatten]
  refine ⟨?_, ?_⟩
  · rintro ⟨part, hpart, hname⟩
    rcases exists_of_forall₂ hall.flip hpart with ⟨c, hc, hbase⟩
    refine ⟨c, hc, ?_⟩
    -- A constant drives without a name.
    split at hbase
    · rw [← Except.ok.inj hbase] at hname
      exact absurd hname List.not_mem_nil
    · next source hsource =>
      rcases Fallible.bind_ok.mp hbase with ⟨base, hbase, hpure⟩
      rw [← Except.ok.inj hpure, List.mem_singleton] at hname
      exact ⟨source, hsource, hname ▸ hbase⟩
  · rintro ⟨c, hc, source, hsource, hbase⟩
    rcases exists_of_forall₂ hall hc with ⟨part, hpart, hread⟩
    simp only [hsource] at hread
    rcases Fallible.bind_ok.mp hread with ⟨base, hbase', hpure⟩
    rw [hbase, Except.ok.injEq] at hbase'
    refine ⟨part, hpart, ?_⟩
    rw [← Except.ok.inj hpure, hbase']
    exact List.mem_singleton_self _

/-- An endpoint drives something if a connection leads from it. -/
theorem consumersOf_eq_zero {e : Endpoint} :
    n.consumersOf e = 0 ↔ ∀ c ∈ n.connections, c.source ≠ .endpoint e := by
  rw [consumersOf, List.countP_eq_zero]
  exact forall₂_congr fun c _ => by rw [decide_eq_true_eq]

/-- An endpoint that drives at most once tells the connection. -/
theorem eq_of_consumersOf_le_one {e : Endpoint} (h : n.consumersOf e ≤ 1) {c c' : Connection}
    (hc : c ∈ n.connections) (hc' : c' ∈ n.connections) (hsource : c.source = .endpoint e)
    (hsource' : c'.source = .endpoint e) : c = c' := by
  rw [consumersOf, List.countP_eq_length_filter] at h
  have hmem : c ∈ n.connections.filter fun c => c.source = .endpoint e :=
    List.mem_filter.mpr ⟨hc, decide_eq_true hsource⟩
  have hmem' : c' ∈ n.connections.filter fun c => c.source = .endpoint e :=
    List.mem_filter.mpr ⟨hc', decide_eq_true hsource'⟩
  rcases List.getElem_of_mem hmem with ⟨i, hi, rfl⟩
  rcases List.getElem_of_mem hmem' with ⟨j, hj, rfl⟩
  congr 1
  omega

/-- Connections are one to one if no two have the same target or the same source. -/
theorem OneToOne.of_nodup (htargets : (n.connections.map Connection.target).Nodup)
    (hsources : (n.connections.map Connection.source).Nodup) : n.OneToOne := by
  refine ⟨htargets, fun e _ _ _ _ => ?_⟩
  have hcount : n.consumersOf e = (n.connections.map Connection.source).count (.endpoint e) := by
    rw [consumersOf, List.count, List.countP_map]
    rfl
  rw [hcount]
  exact List.nodup_iff_count_le_one.mp hsources _

/-- One connection asks for a line if connections are one to one. -/
theorem OneToOne.connection_eq (h : n.OneToOne) {c c' : Connection} (hc : c ∈ n.connections)
    (hc' : c' ∈ n.connections) {s : Site} (hs : n.Resolves s.endpoint s) {l : Line}
    {q q' : String × Driver} (hfor : n.AsksFor c s l q) (hfor' : n.AsksFor c' s l q') :
    c = c' := by
  have hl : l ∈ s.shape.lines := (mem_linesOf.mp hfor.mem_lines).2
  rcases hfor.side with ⟨hforward, htarget⟩ | ⟨hbackward, hsource⟩
  · rcases hfor'.side with ⟨_, htarget'⟩ | ⟨hbackward, _⟩
    · exact List.inj_on_of_nodup_map h.targets hc hc' (htarget.trans htarget'.symm)
    · exact absurd (hforward.symm.trans hbackward) (by simp)
  · rcases hfor'.side with ⟨hforward, _⟩ | ⟨_, hsource'⟩
    · exact absurd (hforward.symm.trans hbackward) (by simp)
    · have hstream : s.shape.isStream = true := Shape.backward_iff.mp ⟨l, hl, hbackward⟩
      exact eq_of_consumersOf_le_one (h.streams _ _ _ hs.shape hstream) hc hc' hsource hsource'

/-- Nothing that drives has a name. -/
def Unnamed (n : Netlist) (name : String) : Prop :=
  ∀ c ∈ n.connections, ∀ source, c.source = .endpoint source → n.signalBase source ≠ .ok name

theorem unnamed_iff {consumed : List String} (h : n.consumedBases = .ok consumed)
    {name : String} : n.Unnamed name ↔ name ∉ consumed := by
  rw [mem_consumed h, Unnamed]
  exact ⟨fun hall ⟨c, hc, source, hsource, hbase⟩ => hall c hc source hsource hbase,
    fun hnone c hc source hsource hbase => hnone ⟨c, hc, source, hsource, hbase⟩⟩

/-- Streams that nobody consumes are masked just if something drives under their names. -/
theorem masked_iff {name : String} :
    n.Masked name ↔ n.consumersOf (.top name) = 0 ∧ ¬n.Unnamed name := by
  unfold Masked Unnamed
  push Not
  rfl

/-- A wire that nothing drives from has no consumers. -/
theorem consumersOf_of_unnamed {name : String} (h : n.Unnamed name) :
    n.consumersOf (.top name) = 0 :=
  consumersOf_eq_zero.mpr fun c hc hsource => h c hc _ hsource rfl

/-- What a design asks for a line: what its connections ask for, and a constant for the
    ready lines of the wires that nothing of their name drives from. -/
inductive Wanted (n : Netlist) : Site → Line → String × Driver → Prop where
  | connected {c : Connection} {s : Site} {l : Line} {q : String × Driver}
      (hc : c ∈ n.connections) (h : n.AsksFor c s l q) : Wanted n s l q
  | idle {s : Site} {l : Line} (hs : s ∈ n.wireSites) (hidle : n.Unnamed s.base)
      (hl : l ∈ s.shape.lines) (hbackward : l.backward = true) :
      Wanted n s l (s.name l, .constant 0 1)

namespace Wanted

variable {s : Site} {l : Line} {q : String × Driver} (h : n.Wanted s l q)

include h

theorem mem_lines : (s, l) ∈ linesOf n.sites := by
  cases h with
  | connected _ hasks => exact hasks.mem_lines
  | idle hs _ hl _ =>
      exact mem_linesOf.mpr ⟨mem_sites_of_mem_wireSites hs, hl⟩

theorem name_eq : q.1 = s.name l := by
  cases h with
  | connected _ hasks => exact hasks.name_eq
  | idle _ _ _ _ => rfl

theorem incoming_eq : s.incoming l = false := by
  cases h with
  | connected _ hasks => exact hasks.incoming_eq
  | idle hs _ _ _ =>
      rcases mem_wireSites.mp hs with ⟨name, shape, _, rfl⟩
      rfl

end Wanted

/-- The idle streams are those that nothing of their name drives from. -/
theorem mem_tied {consumed : List String} (h : n.consumedBases = .ok consumed)
    {q : String × Driver} : q ∈ (n.idleSites consumed).flatMap Site.tied ↔
      ∃ s ∈ n.wireSites, n.Unnamed s.base ∧
        ∃ l ∈ s.shape.lines, l.backward = true ∧ q = (s.name l, .constant 0 1) := by
  rw [List.mem_flatMap]
  refine ⟨?_, ?_⟩
  · rintro ⟨s, hs, hq⟩
    rw [idleSites, List.mem_filter, Bool.and_eq_true, decide_eq_true_eq, ← unnamed_iff h] at hs
    rcases List.mem_map.mp hq with ⟨l, hl, rfl⟩
    rw [List.mem_filter] at hl
    exact ⟨s, hs.1, hs.2.2, l, hl.1, hl.2, rfl⟩
  · rintro ⟨s, hs, hnone, l, hl, hbackward, rfl⟩
    refine ⟨s, List.mem_filter.mpr ⟨hs, ?_⟩, ?_⟩
    · rw [Bool.and_eq_true, decide_eq_true_eq, ← unnamed_iff h]
      exact ⟨Shape.backward_iff.mp ⟨l, hl, hbackward⟩, hnone⟩
    · exact List.mem_map_of_mem (List.mem_filter.mpr ⟨hl, hbackward⟩)

/-- Something is asked for every line of a wire, unless it is the ready line of a masked
    stream: the producer that every wire has asks for the forward lines, the consumer for
    the others, and a stream without a name that drives is tied low. -/
theorem exists_wanted (hvalid : n.validate = .ok ()) (hkeyed : n.Keyed) {s : Site}
    (hs : s ∈ n.wireSites) {l : Line} (hl : l ∈ s.shape.lines)
    (hclosed : ¬(n.Masked s.base ∧ l.backward = true)) : ∃ q, n.Wanted s l q := by
  have hresolves := hkeyed.resolves hs
  rcases validate_ok hvalid with ⟨hconnections, hdriven, _⟩
  rcases mem_wireSites.mp hs with ⟨name, shape, hwire, rfl⟩
  -- Ready lines are asked for by what consumes the wire, and the others by its producer.
  by_cases hbackward : l.backward = true
  · by_cases hidle : n.Unnamed name
    · exact ⟨_, .idle hs hidle hl hbackward⟩
    have hconsumed : n.consumersOf (.top name) ≠ 0 :=
      fun hzero => hclosed ⟨masked_iff.mpr ⟨hzero, hidle⟩, hbackward⟩
    rw [ne_eq, consumersOf_eq_zero] at hconsumed
    push Not at hconsumed
    rcases hconsumed with ⟨⟨target, source⟩, hc, hsource⟩
    rcases hsource with rfl
    rcases checkConnection_ok (hconnections _ hc) with ⟨t, ht, _, hside⟩
    rcases hside _ rfl with ⟨s', hs', hdrives, hlines⟩
    rcases hresolves.unique hs' with rfl
    exact ⟨_, .connected hc (.backward ht hs' hdrives hlines hl hbackward)⟩
  · have hforward : l.backward = false := Bool.eq_false_iff.mpr hbackward
    rcases List.any_eq_true.mp (hdriven _ hwire) with ⟨⟨target, source⟩, hc, htarget⟩
    rcases of_decide_eq_true htarget with rfl
    rcases checkConnection_ok (hconnections _ hc) with ⟨t, ht, hcan, hside⟩
    rcases hresolves.unique ht with rfl
    cases source with
    | constant value => exact ⟨_, .connected hc (.held ht hcan hl hforward)⟩
    | endpoint source =>
        rcases hside source rfl with ⟨s', hs', _, hlines⟩
        exact ⟨_, .connected hc (.forward ht hcan hs' hlines hl hforward)⟩

/-- The assignments are made of what the design asks for: nothing is assigned twice,
    nothing is assigned that was not asked for, and what was asked for is assigned. -/
theorem resolve_wanted {resolved : Assignments} {warnings : List Warning}
    (hvalid : n.validate = .ok ()) (h : n.resolve = .ok (resolved, warnings)) :
    resolved.targets.Nodup ∧ (∀ q ∈ resolved, ∃ s l, n.Wanted s l q) ∧
      ∀ s l q, n.Wanted s l q → s.name l ∈ resolved.targets := by
  rcases resolve_ok hvalid h with ⟨driven, consumed, hasks, hconsumed, rfl⟩
  -- What the connections ask for comes first, and the idle wires behind it.
  refine ⟨Assignments.nodup_putAll List.nodup_nil, fun q hq => ?_, fun s l q hwanted => ?_⟩
  · rcases Assignments.mem_of_mem_putAll hq with hq | hq
    · exact absurd hq List.not_mem_nil
    rcases List.mem_append.mp hq with hq | hq
    · rcases List.mem_flatten.mp hq with ⟨pairs, hpairs, hq⟩
      rcases exists_of_forall₂ hasks.flip hpairs with ⟨c, hc, hpairs⟩
      rcases hpairs.mem_iff.mp hq with ⟨s, l, hfor⟩
      exact ⟨s, l, .connected hc hfor⟩
    · rcases (mem_tied hconsumed).mp hq with ⟨s, hs, hnone, l, hl, hbackward, rfl⟩
      exact ⟨s, l, .idle hs hnone hl hbackward⟩
  · rw [Assignments.mem_targets_putAll, ← hwanted.name_eq]
    refine .inr (List.mem_map_of_mem ?_)
    cases hwanted with
    | connected hc hfor =>
        rcases exists_of_forall₂ hasks hc with ⟨pairs, hpairs, hc⟩
        exact List.mem_append_left _
          (List.mem_flatten.mpr ⟨pairs, hpairs, hc.mem_iff.mpr ⟨s, l, hfor⟩⟩)
    | idle hs hnone hl hbackward =>
        exact List.mem_append_right _
          ((mem_tied hconsumed).mpr ⟨s, hs, hnone, l, hl, hbackward, rfl⟩)

end Netlist

end StencilRtl
