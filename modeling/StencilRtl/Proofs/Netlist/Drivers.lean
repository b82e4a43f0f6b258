import StencilRtl.Proofs.Netlist.Assembly
import StencilRtl.Proofs.Netlist.Wanted
import StencilRtl.Proofs.Rtl.Streams

/-!
# Drivers

What drives the signals of a top module.

A signal comes in through a port, or from an instance, or it has to be assigned. The
lines that come in are known from the sites they belong to, and no connection assigns
one of them, since a checked connection only leads where something can be driven. Of the
others the outputs and the inputs of instances are checked once more when the module is
put together. What is left are the wires, and something is wanted for all their lines
but the ready lines of masked streams. Those are left open, and apart from them every
signal has one driver.

As long as no two signals have one name, an assignment tells the connection it comes
from. So if no endpoint is driven twice and no stream is consumed twice, nothing is ever
taken back.

## Main definitions

* `Netlist.drivers`: How many drivers a signal of the top module has.
* `Netlist.Open`: The ready line of a masked stream.

## Theorems

* `Netlist.Assembled.signal_mem_targets_iff`: Which signals are assigned.
* `Netlist.Assembled.joined_of_mem`: Connections that are one to one join both sides.
* `Netlist.Assembled.transfers_eq_of_mem`: Streams that are joined carry the same words.
* `Netlist.Assembled.tied_iff`: Which ready lines are tied low.
* `Netlist.makeTop_drivers`: Every signal has one driver, but for masked streams.
-/

namespace StencilRtl

namespace Netlist

open Rtl

/-- The signals that instances drive: their outputs, and the ready lines of the streams
    they take in. -/
def instanceOutputs (n : Netlist) : List String :=
  ((linesOf n.instanceSites).filter fun p => p.1.incoming p.2).map fun p => p.1.name p.2

/-- How many drivers a signal of the top module has: inputs of the module, outputs of
    instances, and items that assign to it. -/
def drivers (n : Netlist) (m : Module) (signal : String) : Nat :=
  m.inputs.count signal + n.instanceOutputs.count signal
    + (m.body.flatMap Item.targets).count signal

/-- The signals that come into the logic of the top module. -/
def entering (n : Netlist) : List String :=
  clock :: reset :: ((linesOf n.sites).filter fun p => p.1.incoming p.2).map fun p =>
    p.1.name p.2

/-- The ready line of a masked stream. -/
def Open (n : Netlist) (signal : String) : Prop :=
  ∃ s ∈ n.wireSites, n.Masked s.base ∧ ∃ l ∈ s.shape.lines, l.backward = true ∧ signal = s.name l

variable {n : Netlist}

namespace Assembled

variable {resolved : Assignments} {m : Module} (h : n.Assembled resolved m)

include h

theorem resolved_ok : resolved.targets.Nodup ∧ (∀ q ∈ resolved, ∃ s l, n.Wanted s l q) ∧
    ∀ s l q, n.Wanted s l q → s.name l ∈ resolved.targets := by
  rcases h.resolve with ⟨warnings, hresolve⟩
  exact resolve_wanted h.valid hresolve

/-- How many drivers a signal has, by the lines that come in and those assigned. -/
theorem drivers_eq (signal : String) :
    n.drivers m signal = n.entering.count signal + resolved.targets.count signal := by
  have hwires : (linesOf n.wireSites).filter (fun p => p.1.incoming p.2) = [] := by
    rw [List.filter_eq_nil_iff]
    rintro ⟨s, l⟩ hp
    rcases mem_wireSites.mp (mem_linesOf.mp hp).1 with ⟨name, shape, _, rfl⟩
    exact Bool.false_ne_true
  rw [drivers, entering, h.targets, h.inputs, instanceOutputs, sites, linesOf_append,
    linesOf_append, List.filter_append, List.filter_append, hwires, List.append_nil,
    List.map_append, ← List.count_append, List.cons_append, List.cons_append]

/-- A signal that is declared is the clock, the reset or a line of a site. -/
theorem mem_names {signal : String} (hsignal : signal ∈ m.signals.map Prod.fst) :
    signal = clock ∨ signal = reset ∨ ∃ p ∈ linesOf n.sites, p.1.name p.2 = signal := by
  have hmem := (h.declares.map Prod.fst).mem_iff.mp hsignal
  rw [List.map_cons, List.map_cons, List.map_map, List.mem_cons, List.mem_cons,
    List.mem_map] at hmem
  exact hmem

/-- What is assigned is a line of a site. -/
theorem exists_line_of_mem_targets {signal : String} (hsignal : signal ∈ resolved.targets) :
    ∃ p ∈ linesOf n.sites, p.1.name p.2 = signal := by
  rcases List.mem_map.mp hsignal with ⟨q, hq, rfl⟩
  rcases h.resolved_ok.2.1 q hq with ⟨s, l, hwanted⟩
  exact ⟨(s, l), hwanted.mem_lines, hwanted.name_eq.symm⟩

/-- The lines of a site are declared with their widths. -/
theorem declared_mem {e : Endpoint} {s : Site} {l : Line} (hs : n.Resolves e s)
    (hl : l ∈ s.shape.lines) : (s.name l, l.width) ∈ m.signals := by
  refine h.declares.mem_iff.mpr (List.mem_cons_of_mem _ (List.mem_cons_of_mem _ ?_))
  exact List.mem_map_of_mem (mem_linesOf.mpr ⟨hs.mem, hl⟩)

/-- Signals that are assigned to each other are lines of the same width. -/
theorem width_eq_of_wanted {s : Site} {l : Line} {x y : String}
    (hwanted : n.Wanted s l (x, .signal y)) :
    ∃ width, (x, width) ∈ m.signals ∧ (y, width) ∈ m.signals := by
  cases hwanted with
  | connected _ hfor =>
      cases hfor with
      | forward ht _ hs hlines hl _ =>
          exact ⟨l.width, h.declared_mem ht hl, h.declared_mem hs (hlines ▸ hl)⟩
      | backward ht hs _ hlines hl _ =>
          exact ⟨l.width, h.declared_mem hs hl, h.declared_mem ht (hlines ▸ hl)⟩

variable (hnames : (m.signals.map Prod.fst).Nodup)

include hnames

/-- No two lines have one name, and none has that of the clock or the reset. -/
theorem nodup_names :
    (clock :: reset :: (linesOf n.sites).map fun p => p.1.name p.2).Nodup := by
  have hperm := (h.declares.map Prod.fst).nodup_iff.mp hnames
  rw [List.map_cons, List.map_cons, List.map_map] at hperm
  exact hperm

/-- A name tells the site and the line. -/
theorem line_eq {p q : Site × Line} (hp : p ∈ linesOf n.sites) (hq : q ∈ linesOf n.sites)
    (hsame : p.1.name p.2 = q.1.name q.2) : p = q :=
  List.inj_on_of_nodup_map (h.nodup_names hnames).of_cons.of_cons hp hq hsame

/-- What is assigned to a line was asked for that line. -/
theorem wanted_of_mem {q : String × Driver} (hq : q ∈ resolved) {s : Site} {l : Line}
    (hline : (s, l) ∈ linesOf n.sites) (hname : q.1 = s.name l) : n.Wanted s l q := by
  rcases h.resolved_ok.2.1 q hq with ⟨s', l', hwanted⟩
  rcases h.line_eq hnames hline hwanted.mem_lines (hname ▸ hwanted.name_eq) with ⟨⟩
  exact hwanted

/-- What is asked for a line in one way only is assigned to it. -/
theorem mem_resolved {s : Site} {l : Line} {q : String × Driver} (hwanted : n.Wanted s l q)
    (honly : ∀ q', n.Wanted s l q' → q' = q) : q ∈ resolved := by
  rcases List.mem_map.mp (h.resolved_ok.2.2 s l q hwanted) with ⟨q', hq', hname⟩
  rw [← honly q' (h.wanted_of_mem hnames hq' hwanted.mem_lines hname)]
  exact hq'

/-- The lines that are assigned: all that do not come in, but for those left open. -/
theorem mem_targets_iff (hkeyed : n.Keyed) {p : Site × Line} (hp : p ∈ linesOf n.sites) :
    p.1.name p.2 ∈ resolved.targets
      ↔ p.1.incoming p.2 = false ∧ ¬n.Open (p.1.name p.2) := by
  rcases p with ⟨s, l⟩
  refine ⟨fun hmem => ?_, fun ⟨houtgoing, hclosed⟩ => ?_⟩
  · rcases List.mem_map.mp hmem with ⟨q, hq, hname⟩
    have hwanted := h.wanted_of_mem hnames hq hp hname
    refine ⟨hwanted.incoming_eq, ?_⟩
    rintro ⟨s', hs', hmasked, l', hl', hbackward, hsame⟩
    rcases h.line_eq hnames hp (mem_linesOf.mpr ⟨mem_sites_of_mem_wireSites hs', hl'⟩) hsame
      with ⟨⟩
    rcases mem_wireSites.mp hs' with ⟨name, shape, _, rfl⟩
    rcases masked_iff.mp hmasked with ⟨hzero, hnamed⟩
    -- What is masked drives nothing, so no connection wants its ready line, and it is not idle
    -- either.
    cases hwanted with
    | connected hc hfor =>
        rcases hfor.side with ⟨hforward, _⟩ | ⟨_, hsource⟩
        · exact absurd (hforward.symm.trans hbackward) (by simp)
        · exact consumersOf_eq_zero.mp hzero _ hc hsource
    | idle _ hidle _ _ => exact hnamed hidle
  · have hmem := mem_linesOf.mp hp
    rcases List.mem_append.mp hmem.1 with hs | hs
    · rcases List.mem_append.mp hs with hs | hs
      · exact h.sinks (s, l) (mem_linesOf.mpr ⟨List.mem_append_left _ hs, hmem.2⟩) houtgoing
      -- A wire wants all its lines but the ready lines that are left open.
      · have hopen : ¬(n.Masked s.base ∧ l.backward = true) :=
          fun hmasked => hclosed ⟨s, hs, hmasked.1, l, hmem.2, hmasked.2, rfl⟩
        rcases exists_wanted h.valid hkeyed hs hmem.2 hopen with ⟨q, hq⟩
        exact h.resolved_ok.2.2 s l q hq
    · exact h.sinks (s, l) (mem_linesOf.mpr ⟨List.mem_append_right _ hs, hmem.2⟩) houtgoing

/-- Neither the clock nor the reset is a line. -/
theorem name_ne {p : Site × Line} (hp : p ∈ linesOf n.sites) :
    p.1.name p.2 ≠ clock ∧ p.1.name p.2 ≠ reset := by
  have hnodup := h.nodup_names hnames
  have hmem : p.1.name p.2 ∈ (linesOf n.sites).map fun p => p.1.name p.2 := List.mem_map_of_mem hp
  exact ⟨fun heq => hnodup.notMem (List.mem_cons_of_mem _ (heq ▸ hmem)),
    fun heq => hnodup.of_cons.notMem (heq ▸ hmem)⟩

theorem nodup_entering : n.entering.Nodup :=
  (h.nodup_names hnames).sublist (((List.filter_sublist.map _).cons_cons _).cons_cons _)

theorem mem_entering_iff {p : Site × Line} (hp : p ∈ linesOf n.sites) :
    p.1.name p.2 ∈ n.entering ↔ p.1.incoming p.2 = true := by
  rw [entering, List.mem_cons, List.mem_cons, List.mem_map]
  refine ⟨?_, fun hin => .inr (.inr ⟨p, List.mem_filter.mpr ⟨hp, hin⟩, rfl⟩)⟩
  rintro (heq | heq | ⟨q, hq, hname⟩)
  · exact absurd heq (h.name_ne hnames hp).1
  · exact absurd heq (h.name_ne hnames hp).2
  · rw [List.mem_filter] at hq
    exact h.line_eq hnames hq.1 hp hname ▸ hq.2

/-- What is left open does not come in. -/
theorem not_mem_entering_of_open {signal : String} (hopen : n.Open signal) :
    signal ∉ n.entering := by
  rcases hopen with ⟨s, hs, _, l, hl, _, rfl⟩
  intro hmem
  have hline : (s, l) ∈ linesOf n.sites := mem_linesOf.mpr ⟨mem_sites_of_mem_wireSites hs, hl⟩
  have hin : s.incoming l = true := (h.mem_entering_iff hnames hline).mp hmem
  rcases mem_wireSites.mp hs with ⟨name, shape, _, rfl⟩
  exact Bool.false_ne_true hin

/-- The signals that are assigned: all that do not come in, but for those left open. -/
theorem signal_mem_targets_iff (hkeyed : n.Keyed) {signal : String}
    (hsignal : signal ∈ m.signals.map Prod.fst) :
    signal ∈ resolved.targets ↔ signal ∉ n.entering ∧ ¬n.Open signal := by
  have hcommon : ∀ common ∈ [clock, reset], common ∉ resolved.targets := by
    intro common hmem htarget
    rcases h.exists_line_of_mem_targets htarget with ⟨p, hp, rfl⟩
    rcases List.mem_cons.mp hmem with heq | hmem
    · exact (h.name_ne hnames hp).1 heq
    · exact (h.name_ne hnames hp).2 (List.mem_singleton.mp hmem)
  rcases h.mem_names hsignal with rfl | rfl | ⟨p, hp, rfl⟩
  · exact ⟨fun htarget => absurd htarget (hcommon clock (List.mem_cons_self ..)),
      fun hout => absurd (List.mem_cons_self ..) hout.1⟩
  · exact ⟨fun htarget => absurd htarget (hcommon reset (by simp)),
      fun hout => absurd (List.mem_cons_of_mem _ (List.mem_cons_self ..)) hout.1⟩
  · rw [h.mem_targets_iff hnames hkeyed hp, h.mem_entering_iff hnames hp, Bool.not_eq_true]

/-- A declared signal comes in, is assigned or is left open, and only one of the three. -/
theorem drivers_of_mem (hkeyed : n.Keyed) {signal : String}
    (hsignal : signal ∈ m.signals.map Prod.fst) :
    (¬n.Open signal → n.drivers m signal = 1) ∧ (n.Open signal → n.drivers m signal = 0) := by
  have htargets := h.signal_mem_targets_iff hnames hkeyed hsignal
  rw [h.drivers_eq, (h.nodup_entering hnames).count, h.resolved_ok.1.count]
  refine ⟨fun hclosed => ?_, fun hopen => ?_⟩
  · by_cases hin : signal ∈ n.entering
    · rw [if_pos hin, if_neg fun htarget => (htargets.mp htarget).1 hin]
    · rw [if_neg hin, if_pos (htargets.mpr ⟨hin, hclosed⟩)]
  · rw [if_neg (h.not_mem_entering_of_open hnames hopen),
      if_neg fun htarget => (htargets.mp htarget).2 hopen]

/-- What is asked for a line in one way only is the value it is assigned. -/
theorem assign_mem {s : Site} {l : Line} {driver : Driver}
    (hwanted : n.Wanted s l (s.name l, driver))
    (honly : ∀ q, n.Wanted s l q → q = (s.name l, driver)) :
    .assign (.ref (s.name l)) (driverValue driver) ∈ m.body :=
  (h.assigns _ _).mpr ⟨_, h.mem_resolved hnames hwanted honly, rfl, rfl⟩

/-- If connections are one to one, nothing that one of them asks for is taken back. -/
theorem assign_mem_of_asksFor (hone : n.OneToOne) {c : Connection} (hc : c ∈ n.connections)
    {source : Endpoint} (hsource : c.source = .endpoint source) {base : String}
    (hbase : n.signalBase source = .ok base) {s : Site} (hs : n.Resolves s.endpoint s) {l : Line}
    (hside : l.backward = true → s.base = base) {driver : Driver}
    (hfor : n.AsksFor c s l (s.name l, driver)) :
    .assign (.ref (s.name l)) (driverValue driver) ∈ m.body := by
  refine h.assign_mem hnames (.connected hc hfor) fun q hwanted => ?_
  cases hwanted with
  | connected hc' hfor' =>
      rcases hone.connection_eq hc hc' hs hfor hfor' with rfl
      exact hfor'.unique hfor
  | idle _ hidle _ hbackward =>
      exact absurd (hside hbackward ▸ hbase) (hidle c hc source hsource)

/-- If connections are one to one, both sides of each are joined line by line. -/
theorem joined_of_mem (hone : n.OneToOne) {c : Connection} (hc : c ∈ n.connections)
    {source : Endpoint} (hsource : c.source = .endpoint source) :
    ∃ t s, n.Resolves c.target t ∧ n.Resolves source s ∧ t.shape.lines = s.shape.lines ∧
      ∀ l ∈ t.shape.lines,
        (l.backward = false → .assign (.ref (t.name l)) (.ref (s.name l)) ∈ m.body) ∧
        (l.backward = true → .assign (.ref (s.name l)) (.ref (t.name l)) ∈ m.body) := by
  rcases c with ⟨target, _⟩
  rcases hsource with rfl
  rcases checkConnection_ok ((validate_ok h.valid).1 _ hc) with ⟨t, ht, hdriven, hsides⟩
  rcases hsides source rfl with ⟨s, hs, hdrives, hlines⟩
  refine ⟨t, s, ht, hs, hlines, fun l hl => ⟨fun hforward => ?_, fun hbackward => ?_⟩⟩
  · have hfor := AsksFor.forward ht hdriven hs hlines hl hforward
    exact h.assign_mem_of_asksFor hnames hone hc rfl hs.base (ht.endpoint_eq.symm ▸ ht)
      (fun hbackward => absurd (hforward.symm.trans hbackward) (by simp)) hfor
  · have hfor := AsksFor.backward ht hs hdrives hlines (hlines ▸ hl) hbackward
    exact h.assign_mem_of_asksFor hnames hone hc rfl hs.base (hs.endpoint_eq.symm ▸ hs)
      (fun _ => rfl) hfor

/-- If connections are one to one, the same words move on both sides of a connection between
    streams. -/
theorem transfers_eq_of_mem (hone : n.OneToOne) {library : String → Option Module} {Γ : Typing}
    {τ : Nat → State} (hruns : m.Runs library Γ τ) {c : Connection} (hc : c ∈ n.connections)
    {source : Endpoint} (hsource : c.source = .endpoint source) {t s : Site}
    (ht : n.Resolves c.target t) (hs : n.Resolves source s) (hkind : s.shape.kind = .stream)
    (k : Nat) : transfers τ t.base k = transfers τ s.base k := by
  rcases h.joined_of_mem hnames hone hc hsource with ⟨t', s', ht', hs', hlines, hjoined⟩
  rcases ht.unique ht' with rfl
  rcases hs.unique hs' with rfl
  -- Forward lines are assigned on the side of the target, and ready lines on that of the source.
  have hsame : ∀ l ∈ s.shape.lines, ∀ i, (τ i).value (t.name l) = (τ i).value (s.name l) := by
    intro l hl i
    have htarget : (t.name l, l.width) ∈ m.signals := h.declared_mem ht (hlines ▸ hl)
    have hsource : (s.name l, l.width) ∈ m.signals := h.declared_mem hs hl
    cases hbackward : l.backward with
    | false =>
        rw [hruns.assigned ((hjoined l (hlines ▸ hl)).1 hbackward),
          Expr.assigned_ref (hruns.width_eq htarget ▸ hruns.value_lt hsource i)]
    | true =>
        rw [hruns.assigned ((hjoined l (hlines ▸ hl)).2 hbackward),
          Expr.assigned_ref (hruns.width_eq hsource ▸ hruns.value_lt htarget i)]
  refine transfers_congr (fun i ending hending => ?_) k
  have hline : ∃ l ∈ s.shape.lines, l.ending = ending := by
    unfold Shape.lines
    rw [hkind]
    simp only [List.mem_cons, List.not_mem_nil, or_false] at hending
    rcases hending with rfl | rfl | rfl <;> simp
  rcases hline with ⟨l, hl, rfl⟩
  exact hsame l hl (i + 1)

/-- Ready lines are tied low for the wires that drive nothing and are not masked. -/
theorem tied_iff {s : Site} (hs : s ∈ n.sites) {l : Line} (hl : l ∈ s.shape.lines)
    (hbackward : l.backward = true) : .assign (.ref (s.name l)) (.literal 1 0) ∈ m.body ↔
      s.direction = none ∧ n.consumersOf s.endpoint = 0 ∧ ¬n.Masked s.base := by
  refine ⟨fun hassign => ?_, ?_⟩
  · rcases (h.assigns _ _).mp hassign with ⟨⟨name, driver⟩, hq, htarget, hvalue⟩
    -- The constant is the driver of this line, and only idle lines are driven by it.
    rcases Rtl.Expr.ref.inj htarget with rfl
    have hwanted := h.wanted_of_mem hnames hq (mem_linesOf.mpr ⟨hs, hl⟩) rfl
    cases hwanted with
    | connected hc hfor =>
        cases hfor with
        | held _ _ _ hforward => exact absurd (hforward.symm.trans hbackward) (by simp)
        | forward _ _ _ _ _ _ => exact absurd hvalue (by simp [driverValue])
        | backward _ _ _ _ _ _ => exact absurd hvalue (by simp [driverValue])
    | idle hwire hidle _ _ =>
        rcases mem_wireSites.mp hwire with ⟨name, shape, _, rfl⟩
        exact ⟨rfl, consumersOf_of_unnamed hidle, fun hmasked => (masked_iff.mp hmasked).2 hidle⟩
  · rintro ⟨hnone, hzero, hmasked⟩
    have hwire := mem_wireSites_of_direction hs hnone
    rcases mem_wireSites.mp hwire with ⟨name, shape, _, rfl⟩
    -- Nothing else wants the line, as nobody consumes the wire.
    have hidle : n.Unnamed name := by
      rw [masked_iff] at hmasked
      exact not_not.mp fun hnamed => hmasked ⟨hzero, hnamed⟩
    refine h.assign_mem hnames (.idle hwire hidle hl hbackward) fun q hwanted => ?_
    cases hwanted with
    | connected hc hfor =>
        rcases hfor.side with ⟨hforward, _⟩ | ⟨_, hsource⟩
        · exact absurd (hforward.symm.trans hbackward) (by simp)
        · exact absurd hsource (consumersOf_eq_zero.mp hzero _ hc)
    | idle _ _ _ _ => rfl

end Assembled

/-- In a top module without name clashes every signal has one driver, but for the ready
    lines of masked streams, which have none. Signals assigned to each other have the same
    width. If connections are one to one, each drives the forward lines of its target and
    the ready line of its source. The ready lines tied low are those of wires that drive
    nothing, unless they are masked. Instances are connected to the lines of their sites. -/
theorem makeTop_drivers (hkeyed : n.Keyed) {m : Module} {w w' : Workshop}
    (h : Returns n.makeTop w m w') (hnames : (m.signals.map Prod.fst).Nodup) :
    (∀ signal ∈ m.signals.map Prod.fst,
      (¬n.Open signal → n.drivers m signal = 1) ∧ (n.Open signal → n.drivers m signal = 0)) ∧
    (∀ x y, .assign (.ref x) (.ref y) ∈ m.body →
      ∃ width, (x, width) ∈ m.signals ∧ (y, width) ∈ m.signals) ∧
    (n.OneToOne → ∀ c ∈ n.connections, ∀ source, c.source = .endpoint source →
      ∃ t s, n.Resolves c.target t ∧ n.Resolves source s ∧ t.shape.lines = s.shape.lines ∧
        ∀ l ∈ t.shape.lines,
          (l.backward = false → .assign (.ref (t.name l)) (.ref (s.name l)) ∈ m.body) ∧
          (l.backward = true → .assign (.ref (s.name l)) (.ref (t.name l)) ∈ m.body)) ∧
    (∀ s ∈ n.sites, ∀ l ∈ s.shape.lines, l.backward = true →
      (.assign (.ref (s.name l)) (.literal 1 0) ∈ m.body ↔
        s.direction = none ∧ n.consumersOf s.endpoint = 0 ∧ ¬n.Masked s.base)) ∧
    (∀ c ∈ n.components, ∃ moduleName, .submodule moduleName c.instanceName
      (commonConnections ++ componentConnections c) ∈ m.body) := by
  rcases assembled_of_makeTop h with ⟨resolved, hassembled⟩
  refine ⟨fun signal hsignal => hassembled.drivers_of_mem hnames hkeyed hsignal,
    fun x y hassign => ?_,
    fun hone c hc source hsource => hassembled.joined_of_mem hnames hone hc hsource,
    fun s hs l hl hbackward => hassembled.tied_iff hnames hs hl hbackward, hassembled.instances⟩
  rcases (hassembled.assigns _ _).mp hassign with ⟨⟨name, driver⟩, hq, htarget, hvalue⟩
  rcases Rtl.Expr.ref.inj htarget with rfl
  cases driver with
  | constant value width => exact absurd hvalue (by simp [driverValue])
  | signal source =>
      rcases Rtl.Expr.ref.inj hvalue with rfl
      rcases hassembled.resolved_ok.2.1 _ hq with ⟨s, l, hwanted⟩
      exact hassembled.width_eq_of_wanted hwanted

/-- An adapter whose stream nobody consumes, with a name for its wire. -/
def idleInput (wire : String) : Netlist :=
  let words : Shape := ⟨.stream, .uint 8, [1], [4], 1⟩
  let bus : Shape := { words with kind := .busStream }
  { Netlist.empty "idle" with
    components := [⟨"io", .adapter .inward, [(startPort, .bit), ("data_in", bus)],
      [(donePort, .bit), ("data_out", words)]⟩]
    ports := [("src", bus, .input), ("go", .bit, .input), ("done", .bit, .output)]
    wires := [(wire, words)]
    connections := [⟨.port 0 "data_in", .endpoint (.top "src")⟩,
      ⟨.port 0 startPort, .endpoint (.top "go")⟩,
      ⟨.top "done", .endpoint (.port 0 donePort)⟩,
      ⟨.top wire, .endpoint (.port 0 "data_out")⟩] }

/-- The top module of a design that is made first of all. -/
def topModule (n : Netlist) : Option Module := (n.makeTop.run.run .empty).1.toOption

theorem returns_of_topModule {m : Module} (h : n.topModule = some m) :
    Returns n.makeTop .empty m (n.makeTop.run.run .empty).2 := by
  unfold topModule at h
  cases hrun : (n.makeTop.run.run .empty).1 with
  | error e => exact absurd (hrun ▸ h) (by simp [Except.toOption])
  | ok m' =>
      rw [hrun] at h
      exact returns_of_run (hrun.trans (congrArg Except.ok (Option.some.inj h)))

/-- A stream nobody consumes, under a name of its own: all signals have one driver, the
    ready line of the stream is tied low, and that of the adapter follows it. -/
theorem makeTop_drivers_idleInput : ∃ m, (idleInput "words").topModule = some m ∧
    (∀ signal ∈ m.signals.map Prod.fst, (idleInput "words").drivers m signal = 1) ∧
    .assign (.ref "words_ready") (.literal 1 0) ∈ m.body ∧
    .assign (.ref "io_data_out_ready") (.ref "words_ready") ∈ m.body := by
  have hmade : ∃ m ∈ (idleInput "words").topModule, (m.signals.map Prod.fst).Nodup := by
    decide +kernel
  rcases hmade with ⟨m, hm, hnames⟩
  have hconsumed : (idleInput "words").consumedBases
      = .ok ["src", "go", "io_done_out", "io_data_out"] := by decide +kernel
  -- Nobody consumes the stream, and its name is not that of a signal that is consumed.
  have hidle : (idleInput "words").Unnamed "words" := (unnamed_iff hconsumed).mpr (by decide)
  have hmasked : ¬(idleInput "words").Masked "words" :=
    fun hmasked => (masked_iff.mp hmasked).2 hidle
  have hone : (idleInput "words").OneToOne := .of_nodup (by decide) (by decide)
  have hkeyed : (idleInput "words").Keyed := List.nodup_singleton _
  rcases makeTop_drivers hkeyed (returns_of_topModule hm) hnames
    with ⟨hdrivers, _, hjoined, htied, _⟩
  refine ⟨m, hm, fun signal hsignal => (hdrivers signal hsignal).1 ?_, ?_, ?_⟩
  · rintro ⟨s, hs, hmasked', _⟩
    rw [wireSites, idleInput, List.map_singleton, List.mem_singleton] at hs
    rcases hs with rfl
    exact hmasked hmasked'
  · have hsite : (⟨.top "words", "words", ⟨.stream, .uint 8, [1], [4], 1⟩, none⟩ : Site)
        ∈ (idleInput "words").sites := by decide
    exact (htied _ hsite ⟨"_ready", 1, true⟩ (by decide) rfl).mpr
      ⟨rfl, consumersOf_of_unnamed hidle, hmasked⟩
  · rcases hjoined hone ⟨.top "words", .endpoint (.port 0 "data_out")⟩ (by decide) _ rfl
      with ⟨t, s, ht, hs, _, hlines⟩
    have htarget : (idleInput "words").Resolves (.top "words")
        ⟨.top "words", "words", ⟨.stream, .uint 8, [1], [4], 1⟩, none⟩ :=
      ⟨by decide, rfl, by decide +kernel, rfl⟩
    have hsource : (idleInput "words").Resolves (.port 0 "data_out")
        ⟨.port 0 "data_out", "io_data_out", ⟨.stream, .uint 8, [1], [4], 1⟩, some .output⟩ :=
      ⟨by decide, rfl, by decide +kernel, by decide +kernel⟩
    -- Both ends of the one connection are known sites, so the line that joins them can be read off.
    rcases ht.unique htarget with rfl
    rcases hs.unique hsource with rfl
    exact (hlines ⟨"_ready", 1, true⟩ (by decide)).2 rfl

/-- Under the name of a port of the adapter that drives something, its ready line is
    declared and has no driver. -/
theorem exists_undriven_ready : ∃ m, (idleInput "io_done_out").topModule = some m ∧
    (m.signals.map Prod.fst).Nodup ∧ ("io_done_out_ready", 1) ∈ m.signals ∧
    (idleInput "io_done_out").drivers m "io_done_out_ready" = 0 := by
  have hmade : ∃ m ∈ (idleInput "io_done_out").topModule,
      (m.signals.map Prod.fst).Nodup ∧ ("io_done_out_ready", 1) ∈ m.signals ∧
      (idleInput "io_done_out").drivers m "io_done_out_ready" = 0 := by
    decide +kernel
  exact hmade

end Netlist

end StencilRtl
