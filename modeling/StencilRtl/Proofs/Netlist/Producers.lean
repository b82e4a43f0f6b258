import StencilRtl.Proofs.Netlist.Growth

/-!
# Producers of Wires

How many connections lead to an endpoint while a design is put together.

An input of a component and a port of the top module are connected where they are
declared, by one connection. A wire is not: it is declared in one place and driven in
another. What drives it is of two sorts. The wire of a parameter is driven by the slave
interface, and a wire that is another name of a stream by the wire of that stream, and
both are declared and connected at once. A queue may drive any wire, whenever its stream
is written. But it has the name of its stream, and instances have names of their own, so
no wire has two queues.

So there is at most one producer of each sort. Nothing prevents a wire from having one of
either sort, and the invariant does not say so. It says instead which streams such a wire
can belong to: those that were given another stream's name and were written as well.

`Tidy` is that invariant of a design. Between the declaration of an output port and its
connection it does not hold, so the ports that are still owed a producer are a parameter.

## Main definitions

* `Netlist.producers`: What drives an endpoint.
* `Netlist.Extends`: Declarations of one design are declarations of another one.
* `Netlist.Fed`: A wire has at most one producer of each sort.
* `Netlist.Tidy`: The invariant.
* `Netlist.Fresh`: A component only some inputs of which have been connected.

## Theorems

* `Tidy.grow`, `Tidy.addWire`, `Tidy.addPort`: Declarations keep the invariant.
* `Tidy.connect`, `Tidy.connectOrigin`, `Tidy.connectQueue`: So do the connections that
  are made.
-/

namespace StencilRtl

theorem wireName_inj {a b : String} (h : wireName a = wireName b) : a = b :=
  (String.append_right_inj _).mp h

namespace Netlist

variable {n m : Netlist}

/-- What drives an endpoint, in the order in which it was connected. -/
def producers (n : Netlist) (e : Endpoint) : List Source :=
  (n.connections.filter fun c => c.target = e).map Connection.source

theorem producers_connect (t : Endpoint) (s : Source) (e : Endpoint) :
    (n.connect t s).producers e = n.producers e ++ if t = e then [s] else [] := by
  rw [producers, producers, connect, List.filter_append, List.map_append]
  by_cases hsame : t = e <;> simp [hsame]

theorem producers_connect_of_ne {t e : Endpoint} (h : t ≠ e) (s : Source) :
    (n.connect t s).producers e = n.producers e := by
  rw [producers_connect, if_neg h, List.append_nil]

theorem producers_congr (h : m.connections = n.connections) (e : Endpoint) :
    m.producers e = n.producers e := by
  rw [producers, producers, h]

theorem mem_producers {e : Endpoint} {s : Source} :
    s ∈ n.producers e ↔ ⟨e, s⟩ ∈ n.connections := by
  refine ⟨fun h => ?_, fun h => List.mem_map.mpr ⟨⟨e, s⟩, ?_, rfl⟩⟩
  · rcases List.mem_map.mp h with ⟨⟨t, _⟩, hc, rfl⟩
    rcases List.mem_filter.mp hc with ⟨hc, ht⟩
    rw [decide_eq_true_eq] at ht
    exact ht ▸ hc
  · exact List.mem_filter.mpr ⟨h, decide_eq_true rfl⟩

/-- An endpoint that something drives is driven. -/
theorem isDriven_iff {e : Endpoint} : n.isDriven e = true ↔ n.producers e ≠ [] := by
  rw [isDriven, List.any_eq_true, producers, Ne, List.map_eq_nil_iff, List.filter_eq_nil_iff]
  simp

/-- There is an endpoint of this name. -/
def Knows (n : Netlist) (e : Endpoint) : Prop := ∃ p, n.endpoint e = .ok p

theorem knows_top {name : String} : n.Knows (.top name) ↔ n.declares name = true := by
  unfold Knows declares
  rw [endpoint]
  cases hwire : n.wire? name with
  | some shape => simp
  | none => cases hport : n.port? name <;> simp [undefinedName]

theorem knows_port {index : Nat} {name : String} :
    n.Knows (.port index name) ↔
      ∃ c p, n.component index = .ok c ∧ c.port? name = some p := by
  constructor
  · rintro ⟨p, hp⟩
    rcases Fallible.bind_ok.mp hp with ⟨c, hc, hport⟩
    cases hfound : c.port? name with
    | none => exact absurd (hfound ▸ hport) (by simp [undefinedName])
    | some p => exact ⟨c, p, hc, hfound⟩
  · rintro ⟨c, ⟨shape, direction⟩, hc, hport⟩
    refine ⟨(shape, some direction), Fallible.bind_ok.mpr ⟨c, hc, ?_⟩⟩
    simp only [hport]
    rfl

/-- Whatever is declared in one design is declared in the other one. Components may get
    more ports. -/
structure Extends (n m : Netlist) : Prop where
  component : ∀ index c, n.component index = .ok c → ∃ d, m.component index = .ok d ∧
    d.instanceName = c.instanceName ∧ d.kind = c.kind ∧ c.Extends d
  wire : ∀ name shape, n.wire? name = some shape → m.wire? name = some shape
  port : ∀ name p, n.port? name = some p → m.port? name = some p

namespace Extends

theorem refl (n : Netlist) : n.Extends n :=
  ⟨fun _ c hc => ⟨c, hc, rfl, rfl, .refl c⟩, fun _ _ h => h, fun _ _ h => h⟩

theorem trans {k : Netlist} (h : n.Extends m) (h' : m.Extends k) : n.Extends k where
  component index c hc := by
    rcases h.component index c hc with ⟨d, hd, hname, hkind, hports⟩
    rcases h'.component index d hd with ⟨e, he, hname', hkind', hports'⟩
    exact ⟨e, he, hname'.trans hname, hkind'.trans hkind, hports.trans hports'⟩
  wire name shape hw := h'.wire name shape (h.wire name shape hw)
  port name p hp := h'.port name p (h.port name p hp)

theorem connect (t : Endpoint) (s : Source) : n.Extends (n.connect t s) :=
  ⟨fun _ c hc => ⟨c, hc, rfl, rfl, .refl c⟩, fun _ _ h => h, fun _ _ h => h⟩

theorem addComponent {c : Component} {index : Nat} (h : n.addComponent c = .ok (m, index)) :
    n.Extends m := by
  rcases addComponent_ok h with ⟨_, rfl⟩
  refine ⟨fun i d hd => ⟨d, ?_, rfl, rfl, .refl d⟩, fun _ _ h => h, fun _ _ h => h⟩
  rw [component_ok] at hd ⊢
  rw [List.getElem?_append_left (List.getElem?_eq_some_iff.mp hd).1, hd]

theorem setComponent {index : Nat} {s s' : Component} (hs : n.component index = .ok s)
    (hname : s'.instanceName = s.instanceName) (hkind : s'.kind = s.kind)
    (hports : s.Extends s') : n.Extends (n.setComponent index s') := by
  refine ⟨fun i c hc => ?_, fun _ _ h => h, fun _ _ h => h⟩
  by_cases hi : index = i
  · subst hi
    rcases Except.ok.inj (hs.symm.trans hc) with rfl
    exact ⟨s', component_setComponent hs, hname, hkind, hports⟩
  · refine ⟨c, ?_, rfl, rfl, .refl c⟩
    rw [component_ok] at hc ⊢
    rw [Netlist.setComponent, List.getElem?_set_ne hi, hc]

theorem addWire {name : String} {shape : Shape} (h : n.addWire name shape = .ok m) :
    n.Extends m := by
  have hwire := (wire?_addWire h).2
  rcases addWire_ok h with ⟨_, rfl⟩
  exact ⟨fun _ c hc => ⟨c, hc, rfl, rfl, .refl c⟩, hwire, fun _ _ h => h⟩

theorem addPort {name : String} {shape : Shape} {direction : Direction}
    (h : n.addPort name shape direction = .ok m) : n.Extends m := by
  rcases addPort_ok h with rfl
  refine ⟨fun _ c hc => ⟨c, hc, rfl, rfl, .refl c⟩, fun _ _ h => h, fun other p hp => ?_⟩
  rcases Option.map_eq_some_iff.mp hp with ⟨found, hfind, rfl⟩
  rw [port?, List.find?_append, hfind]
  rfl

theorem knows (h : n.Extends m) {e : Endpoint} (hknown : n.Knows e) : m.Knows e := by
  cases e with
  | top name =>
      rw [knows_top, declares, Bool.or_eq_true] at hknown ⊢
      rcases hknown with hport | hwire
      · rcases Option.isSome_iff_exists.mp hport with ⟨p, hp⟩
        exact .inl (Option.isSome_iff_exists.mpr ⟨p, h.port name p hp⟩)
      · rcases Option.isSome_iff_exists.mp hwire with ⟨shape, hw⟩
        exact .inr (Option.isSome_iff_exists.mpr ⟨shape, h.wire name shape hw⟩)
  | port index name =>
      rcases knows_port.mp hknown with ⟨c, p, hc, hp⟩
      rcases h.component index c hc with ⟨d, hd, _, _, hports⟩
      exact knows_port.mpr ⟨d, p, hd, hports name p hp⟩

end Extends

/-- The wire of another stream. -/
def IsOtherStream (n : Netlist) (stream : String) (s : Source) : Prop :=
  ∃ other shape, s = .endpoint (.top (wireName other)) ∧ other ≠ stream ∧
    n.wire? (wireName other) = some shape ∧ shape.isStream = true

/-- The output of the queue of a stream. -/
def IsQueue (n : Netlist) (stream : String) (s : Source) : Prop :=
  ∃ index c depth shape, s = .endpoint (.port index "out") ∧ n.component index = .ok c ∧
    c.instanceName = "FIFO_" ++ stream ∧ c.kind = .queue depth ∧
    c.port? "out" = some (shape, .output) ∧ shape.isStream = true

theorem IsOtherStream.extend (hext : n.Extends m) {stream : String} {s : Source}
    (h : n.IsOtherStream stream s) : m.IsOtherStream stream s := by
  rcases h with ⟨other, shape, hs, hother, hwire, hstream⟩
  exact ⟨other, shape, hs, hother, hext.wire _ shape hwire, hstream⟩

theorem IsQueue.extend (hext : n.Extends m) {stream : String} {s : Source}
    (h : n.IsQueue stream s) : m.IsQueue stream s := by
  rcases h with ⟨index, c, depth, shape, hs, hc, hname, hkind, hport, hstream⟩
  rcases hext.component index c hc with ⟨d, hd, hname', hkind', hports⟩
  exact ⟨index, d, depth, shape, hs, hd, hname'.trans hname, hkind'.trans hkind,
    hports _ _ hport, hstream⟩

/-- A stream of whose name no instance is has no queue. -/
theorem not_isQueue_of_find? {stream : String} (h : n.find? ("FIFO_" ++ stream) = none)
    (s : Source) : ¬n.IsQueue stream s := by
  rintro ⟨index, c, _, _, _, hc, hname, _⟩
  rw [component_ok] at hc
  have hmem := List.mem_of_getElem? hc
  rw [find?, List.findIdx?_eq_none_iff] at h
  exact absurd (decide_eq_true hname) (by simpa using h c hmem)

/-- What drives the wire of a stream: something it was connected to where it was declared,
    and a queue. If it was to carry what another wire carries, and a queue as well, its
    stream is among those that are `aliased` and `written`. -/
structure Fed (aliased written : String → Prop) (n : Netlist) (stream : String) (shape : Shape)
    (origin queue : Option Source) : Prop where
  producers : n.producers (.top (wireName stream)) = origin.toList ++ queue.toList
  joined : shape.isStream = true → ∀ s ∈ origin, aliased stream ∧ n.IsOtherStream stream s
  queued : ∀ s ∈ queue, n.IsQueue stream s ∧
    (written stream ∨ (shape.isStream = true → origin = none))

/-- Nothing has more producers than it should, and everything that is connected has been
    declared. The output ports of the top module that are still to be connected are `owed`
    a producer. -/
structure Tidy (aliased written : String → Prop) (owed : List String) (n : Netlist) : Prop where
  keyed : n.Keyed
  apart : ∀ name p, n.port? name = some p → n.wire? name = none
  known : ∀ c ∈ n.connections, n.Knows c.target
  once : ∀ e, (∀ name shape, e = .top name → n.wire? name ≠ some shape) →
    (n.producers e).length ≤ 1
  served : ∀ name shape, (name, shape, Direction.output) ∈ n.ports →
    name ∈ owed ∨ n.producers (.top name) ≠ []
  fed : ∀ name shape, n.wire? name = some shape → ∃ stream origin queue,
    name = wireName stream ∧ n.Fed aliased written stream shape origin queue

variable {aliased written : String → Prop} {owed : List String}

namespace Fed

variable {stream : String} {shape : Shape} {origin queue : Option Source}

theorem extend (h : n.Fed aliased written stream shape origin queue) (hext : n.Extends m)
    (hsame : m.producers (.top (wireName stream)) = n.producers (.top (wireName stream))) :
    m.Fed aliased written stream shape origin queue where
  producers := hsame.trans h.producers
  joined hstream s hs := ⟨(h.joined hstream s hs).1, (h.joined hstream s hs).2.extend hext⟩
  queued s hs := ⟨(h.queued s hs).1.extend hext, (h.queued s hs).2⟩

theorem mono {aliased' written' : String → Prop}
    (h : n.Fed aliased written stream shape origin queue) (ha : ∀ s, aliased s → aliased' s)
    (hw : ∀ s, written s → written' s) : n.Fed aliased' written' stream shape origin queue where
  producers := h.producers
  joined hstream s hs := ⟨ha _ (h.joined hstream s hs).1, (h.joined hstream s hs).2⟩
  queued s hs := ⟨(h.queued s hs).1, (h.queued s hs).2.imp_left (hw _)⟩

end Fed

namespace Tidy

theorem mono {aliased' written' : String → Prop} (h : n.Tidy aliased written owed)
    (ha : ∀ s, aliased s → aliased' s) (hw : ∀ s, written s → written' s) :
    n.Tidy aliased' written' owed := by
  refine { h with fed := fun name shape hwire => ?_ }
  rcases h.fed name shape hwire with ⟨stream, origin, queue, hname, hfed⟩
  exact ⟨stream, origin, queue, hname, hfed.mono ha hw⟩

/-- An endpoint that has not been declared has no producer. -/
theorem producers_eq_nil (h : n.Tidy aliased written owed) {e : Endpoint} (hnew : ¬n.Knows e) :
    n.producers e = [] := by
  refine List.eq_nil_iff_forall_not_mem.mpr fun s hs => hnew ?_
  exact h.known _ (mem_producers.mp hs)

/-- More components and ports of components change nothing. -/
theorem grow (h : n.Tidy aliased written owed) (hext : n.Extends m)
    (hconnections : m.connections = n.connections) (hports : m.ports = n.ports)
    (hwires : m.wires = n.wires) : m.Tidy aliased written owed where
  keyed := by
    rw [Keyed, hwires]
    exact h.keyed
  apart name p hp := by
    rw [wire?, hwires]
    rw [port?, hports] at hp
    exact h.apart name p hp
  known c hc := hext.knows (h.known c (hconnections ▸ hc))
  -- Producers are read off the connections, which are the same.
  once e he := by
    rw [producers_congr hconnections]
    exact h.once e fun name shape hname hwire => he name shape hname (hext.wire name shape hwire)
  served name shape hmem := by
    rw [producers_congr hconnections]
    exact h.served name shape (hports ▸ hmem)
  fed name shape hwire := by
    rw [wire?, hwires] at hwire
    rcases h.fed name shape hwire with ⟨stream, origin, queue, hname, hfed⟩
    exact ⟨stream, origin, queue, hname, hfed.extend hext (producers_congr hconnections _)⟩

/-- A new wire has no producer yet. -/
theorem addWire (h : n.Tidy aliased written owed) {stream : String} {shape : Shape}
    (hadd : n.addWire (wireName stream) shape = .ok m) :
    m.Tidy aliased written owed ∧ m.wire? (wireName stream) = some shape ∧
      m.producers (.top (wireName stream)) = [] := by
  have hext := Extends.addWire hadd
  have hfound := (wire?_addWire hadd).1
  have hkeyed := h.keyed.addWire hadd
  have hfree := addWire_new hadd
  have hapart := Apart.addWire h.apart hadd
  have hother : ∀ name, name ≠ wireName stream → m.wire? name = n.wire? name :=
    fun _ => wire?_addWire_of_ne hadd
  rcases addWire_ok hadd with ⟨_, rfl⟩
  -- Whatever has a producer is known, and the wire was not.
  have hunknown : ¬n.Knows (.top (wireName stream)) := by
    rw [knows_top, hfree]
    exact Bool.false_ne_true
  have hnil := h.producers_eq_nil hunknown
  refine ⟨?_, hfound, hnil⟩
  exact
    { keyed := hkeyed
      apart := hapart
      known := fun c hc => hext.knows (h.known c hc)
      once := fun e he => h.once e fun name s hname hwire =>
        he name s hname (hext.wire name s hwire)
      served := h.served
      fed := fun name s hwire => by
        by_cases hname : name = wireName stream
        · subst hname
          exact ⟨stream, none, none, rfl, hnil, fun _ _ hs => absurd hs (by simp),
            fun _ hs => absurd hs (by simp)⟩
        · rw [hother name hname] at hwire
          rcases h.fed name s hwire with ⟨stream', origin, queue, hname', hfed⟩
          exact ⟨stream', origin, queue, hname', hfed.extend hext rfl⟩ }

/-- A new port has no producer yet. If it is an output, it is owed one. -/
theorem addPort (h : n.Tidy aliased written owed) {name : String} {shape : Shape}
    {direction : Direction} (hadd : n.addPort name shape direction = .ok m) :
    m.Tidy aliased written (name :: owed) ∧ (direction = .input → m.Tidy aliased written owed) ∧
      m.wire? name = none ∧ m.producers (.top name) = [] := by
  have hext := Extends.addPort hadd
  have hfree := addPort_new hadd
  rcases declares_eq_false.mp hfree with ⟨_, hwire⟩
  have hapart := Apart.addPort h.apart hadd
  rcases addPort_ok hadd with rfl
  have hunknown : ¬n.Knows (.top name) := by
    rw [knows_top, hfree]
    exact Bool.false_ne_true
  -- What is owed is left open here, since an input owes nothing while an output does.
  have htidy : ∀ owed', (∀ other ∈ owed, other ∈ owed') → (direction = .output → name ∈ owed') →
      Netlist.Tidy aliased written owed'
        { n with ports := n.ports ++ [(name, shape, direction)] } := by
    intro owed' hold hnew
    exact
      { keyed := h.keyed
        apart := hapart
        known := fun c hc => hext.knows (h.known c hc)
        once := h.once
        served := fun other s hmem => by
          rcases List.mem_append.mp hmem with hmem | hmem
          · exact (h.served other s hmem).imp_left (hold other)
          · rw [List.mem_singleton, Prod.mk.injEq, Prod.mk.injEq] at hmem
            exact .inl (hmem.1 ▸ hnew hmem.2.2.symm)
        fed := fun other s hw => by
          rcases h.fed other s hw with ⟨stream, origin, queue, hname, hfed⟩
          exact ⟨stream, origin, queue, hname, hfed.extend hext rfl⟩ }
  refine ⟨htidy _ (fun _ => List.mem_cons_of_mem _) fun _ => List.mem_cons_self .., ?_, hwire,
    h.producers_eq_nil hunknown⟩
  intro hinput
  exact htidy owed (fun _ hmem => hmem) fun houtput => absurd (hinput.symm.trans houtput) (by simp)

/-- A port that has been connected is owed nothing. -/
theorem serve {name : String} (h : n.Tidy aliased written (name :: owed))
    (hserved : n.producers (.top name) ≠ []) : n.Tidy aliased written owed := by
  refine { h with served := fun other shape hmem => ?_ }
  rcases h.served other shape hmem with howed | hdone
  · rcases List.mem_cons.mp howed with rfl | howed
    · exact .inr hserved
    · exact .inl howed
  · exact .inr hdone

/-- What a connection changes are the producers of its target. -/
theorem connect_of_wires (h : n.Tidy aliased written owed) {t : Endpoint} {s : Source}
    (hknown : n.Knows t)
    (honce : (∀ name shape, t = .top name → n.wire? name ≠ some shape) → n.producers t = [])
    (hfed : ∀ name shape, t = .top name → n.wire? name = some shape → ∃ stream origin queue,
      name = wireName stream ∧ (n.connect t s).Fed aliased written stream shape origin queue) :
    (n.connect t s).Tidy aliased written owed where
  keyed := h.keyed
  apart := h.apart
  known c hc := by
    rcases List.mem_append.mp hc with hc | hc
    · exact (Extends.connect t s).knows (h.known c hc)
    · rw [List.mem_singleton.mp hc]
      exact (Extends.connect t s).knows hknown
  once e he := by
    by_cases hsame : t = e
    · subst hsame
      rw [producers_connect, if_pos rfl, honce he]
      exact Nat.le_refl _
    · rw [producers_connect_of_ne hsame]
      exact h.once e he
  served name shape hmem := by
    refine (h.served name shape hmem).imp_right fun hdone => ?_
    rw [producers_connect]
    exact List.append_ne_nil_of_left_ne_nil hdone _
  fed name shape hwire := by
    by_cases hsame : t = .top name
    · exact hfed name shape hsame hwire
    -- Another wire keeps its producers.
    · rcases h.fed name shape hwire with ⟨stream, origin, queue, hname, hfed'⟩
      refine ⟨stream, origin, queue, hname, hfed'.extend (.connect t s) ?_⟩
      exact producers_connect_of_ne (hname ▸ hsame) s

/-- A port without a producer may be connected. -/
theorem connect (h : n.Tidy aliased written owed) {t : Endpoint} (s : Source) (hknown : n.Knows t)
    (hwire : ∀ name, t = .top name → n.wire? name = none) (hfree : n.producers t = []) :
    (n.connect t s).Tidy aliased written owed := by
  refine h.connect_of_wires hknown (fun _ => hfree) fun name shape hname hfound => ?_
  rw [hwire name hname] at hfound
  exact absurd hfound (by simp)

/-- A wire without a producer may be connected, if it carries a stream to the wire of another
    one. -/
theorem connectOrigin (h : n.Tidy aliased written owed) {stream : String} {shape : Shape}
    {s : Source} (hwire : n.wire? (wireName stream) = some shape)
    (hfree : n.producers (.top (wireName stream)) = [])
    (hjoined : shape.isStream = true → aliased stream ∧ n.IsOtherStream stream s) :
    (n.connect (.top (wireName stream)) s).Tidy aliased written owed := by
  refine h.connect_of_wires ?_ (fun _ => hfree) fun name other hname hfound => ?_
  · rw [knows_top, declares, hwire, Option.isSome_some, Bool.or_true]
  · rcases Endpoint.top.inj hname with rfl
    rcases Option.some.inj (hwire.symm.trans hfound) with rfl
    refine ⟨stream, some s, none, rfl, ?_, fun hstream r hr => ?_, fun _ hr => absurd hr (by simp)⟩
    · rw [producers_connect, if_pos rfl, hfree]
      rfl
    · rcases Option.some.inj hr with rfl
      exact ⟨(hjoined hstream).1, (hjoined hstream).2.extend (.connect _ _)⟩

/-- A wire that has no queue yet may be driven by one. -/
theorem connectQueue (h : n.Tidy aliased written owed) {stream : String} {shape : Shape}
    {s : Source} {origin : Option Source} (hwire : n.wire? (wireName stream) = some shape)
    (hfed : n.Fed aliased written stream shape origin none) (hqueue : n.IsQueue stream s)
    (hwritten : written stream ∨ ¬aliased stream) :
    (n.connect (.top (wireName stream)) s).Tidy aliased written owed := by
  have hproducers := hfed.producers
  rw [Option.toList_none, List.append_nil] at hproducers
  refine h.connect_of_wires ?_ (fun hno => absurd hwire (hno _ _ rfl))
    fun name other hname hfound => ?_
  · rw [knows_top, declares, hwire, Option.isSome_some, Bool.or_true]
  · rcases Endpoint.top.inj hname with rfl
    rcases Option.some.inj (hwire.symm.trans hfound) with rfl
    refine ⟨stream, origin, some s, rfl, ?_, fun hstream r hr => ?_, fun r hr => ?_⟩
    · rw [producers_connect, if_pos rfl, hproducers]
      rfl
    · exact ⟨(hfed.joined hstream r hr).1, (hfed.joined hstream r hr).2.extend (.connect _ _)⟩
    · rcases Option.some.inj hr with rfl
      refine ⟨hqueue.extend (.connect _ _), hwritten.imp_right fun hnot hstream => ?_⟩
      exact Option.eq_none_iff_forall_not_mem.mpr fun r hr => hnot (hfed.joined hstream r hr).1

end Tidy

/-- A component only some inputs of which have been connected. -/
structure Fresh (n : Netlist) (index : Nat) (c : Component) (taken : List String) : Prop where
  component : n.component index = .ok c
  free : ∀ name, name ∉ taken → n.producers (.port index name) = []

namespace Tidy

/-- Nothing of a new component has been connected. -/
theorem addComponent (h : n.Tidy aliased written owed) {c : Component} {index : Nat}
    (hadd : n.addComponent c = .ok (m, index)) :
    m.Tidy aliased written owed ∧ m.Fresh index c [] := by
  have hext := Extends.addComponent hadd
  rcases addComponent_ok hadd with ⟨rfl, rfl⟩
  refine ⟨h.grow hext rfl rfl rfl, ?_, fun name _ => h.producers_eq_nil ?_⟩
  · rw [component_ok]
    exact List.getElem?_concat_length
  · rw [knows_port]
    rintro ⟨d, _, hd, _⟩
    rw [component_ok, List.getElem?_eq_none (Nat.le_refl _)] at hd
    exact absurd hd (by simp)

/-- Inputs of a new component are connected one after the other. -/
theorem connectFresh (h : n.Tidy aliased written owed) {c : Component} {index : Nat}
    {taken : List String} (hfresh : n.Fresh index c taken) {name : String} (s : Source)
    (hport : ∃ p, c.port? name = some p) (hname : name ∉ taken) :
    (n.connect (.port index name) s).Tidy aliased written owed ∧
      (n.connect (.port index name) s).Fresh index c (name :: taken) := by
  refine ⟨h.connect s ?_ (fun _ h => by cases h) (hfresh.free name hname), hfresh.component,
    fun other hother => ?_⟩
  · rcases hport with ⟨p, hp⟩
    exact knows_port.mpr ⟨c, p, hfresh.component, hp⟩
  · rw [List.mem_cons, not_or] at hother
    rw [producers_connect_of_ne (fun heq => hother.1 (Endpoint.port.inj heq).2.symm)]
    exact hfresh.free other hother.2

end Tidy

end Netlist

end StencilRtl
