import StencilRtl.Proofs.Answers.Nests
import StencilRtl.Proofs.Netlist.Growth

/-!
# Construction That Answers

Reading a moderate kernel does not give way.

While a kernel is read every shape that comes up is checked and small, so what is kept is that
everything in the design is: its ports and wires, the ports of its components and what the
components are built from. Two things are counted beside that. Components are known by their
numbers, and a number is in range as long as it is below the number of components there have
been once. And every parameter takes room in the register map, so how much room there has to
be is told before the arguments are read.

## Main definitions

* `ComponentKind.Small`, `Netlist.Small`: Everything in a design is small.
* `Construction.Sturdy`: So is what is remembered, with room for the parameters to come.

## Theorems

* `Construction.answers_addArgument`, `Construction.answers_operation`: Single operations.
* `Construction.answers_statement`: Reading a moderate statement answers and keeps it all.
-/

namespace StencilRtl

open Fallible

/-- What a component is built from is small. -/
def ComponentKind.Small : ComponentKind → Prop
  | .queue depth => depth + 1 < Word.limit
  | .lineBuffer image => (∀ extent ∈ image, 0 < extent) ∧ image.prod < Word.limit
  | .dispatch plan => plan.Small
  | .stage plan => plan.Small
  | _ => True

/-- A component with small ports that is built from something small. -/
structure Component.Fine (c : Component) : Prop where
  ports : c.Small
  kind : c.kind.Small

/-- An endpoint that belongs to one of the first components or to the top module. -/
def Endpoint.Within (size : Nat) : Endpoint → Prop
  | .top _ => True
  | .port index _ => index < size

/-- Everything in a design is small, and it connects nothing that is not there. -/
structure Netlist.Small (n : Netlist) : Prop where
  ports : ∀ p ∈ n.ports, p.2.1.Small
  wires : ∀ w ∈ n.wires, w.2.Small
  components : ∀ c ∈ n.components, c.Fine
  targets : ∀ c ∈ n.connections, c.target.Within n.components.length
  sources : ∀ c ∈ n.connections, ∀ e, c.source = .endpoint e → e.Within n.components.length
  registers : n.registers.Sound
  entries : ∀ e ∈ n.registers.entries, (Shape.stencil e.elem e.extents).Small

namespace Component

variable {c : Component} {name : String} {shape : Shape} {kind : ComponentKind}

theorem fine_ofKind (instanceName : String) (hkind : kind.Small) :
    (ofKind instanceName kind).Fine :=
  ⟨small_ofKind _ _, by rwa [kind_ofKind]⟩

namespace Fine

variable (h : c.Fine)

include h

theorem answers_addInput (hshape : shape.Small) :
    Answers (c.addInput name shape) fun d => d.Fine ∧ d.kind = c.kind :=
  (h.ports.answers_addInput hshape).mono_ok fun _ hok hd =>
    ⟨⟨hd, (kind_addInput hok).symm ▸ h.kind⟩, kind_addInput hok⟩

theorem answers_addOutput (hshape : shape.Small) :
    Answers (c.addOutput name shape) fun d => d.Fine ∧ d.kind = c.kind :=
  (h.ports.answers_addOutput hshape).mono_ok fun _ hok hd =>
    ⟨⟨hd, (kind_addOutput hok).symm ▸ h.kind⟩, kind_addOutput hok⟩

theorem answers_addInputs {ports : List (String × Shape)} (hports : ∀ p ∈ ports, p.2.Small) :
    Answers (c.addInputs ports) Fine :=
  .foldlM (fun p hp _ hb => (hb.answers_addInput (hports p hp)).mono fun _ hd => hd.1) h

end Fine

end Component

/-! ### Register maps -/

namespace RegisterMap

variable {m : RegisterMap} {name : String} {shape : Shape}

/-- The end of the entry of a small parameter. -/
theorem past_entryFor (name : String) (hshape : shape.Small)
    (hroom : m.cursor + 4 * shape.extents.prod < Word.limit) :
    (m.entryFor name shape).past = .ok (m.cursor + 4 * shape.extents.prod) := by
  have hbytes : Word.mul 4 shape.extents.prod = .ok (4 * shape.extents.prod) :=
    Word.mul_eq_ok.mpr ⟨by omega, rfl⟩
  have hend : Word.add m.cursor (4 * shape.extents.prod)
      = .ok (m.cursor + 4 * shape.extents.prod) := Word.add_eq_ok.mpr ⟨hroom, rfl⟩
  exact Fallible.bind_ok.mpr ⟨_, Fallible.bind_ok.mpr ⟨_, hshape.elems_eq, hbytes⟩, hend⟩

/-- Where there is room, a small parameter is added or refused. -/
theorem answers_allocate (h : m.Sound) (hshape : shape.Small)
    (hroom : m.cursor + 4 * shape.extents.prod < Word.limit) :
    Answers (m.allocate name shape) fun r => r.1.Sound ∧
      r.1 = ⟨m.entries ++ [⟨name, m.cursor, shape.elem, shape.extents⟩],
        m.cursor + 4 * shape.extents.prod⟩ := by
  have hpast := past_entryFor name hshape hroom
  unfold allocate
  by_cases hwide : busWidth < shape.elem.bits
  · rw [run_place, if_pos hwide]
    trivial
  by_cases htaken : m.entries.any fun e => e.name = name
  · rw [run_place, if_neg hwide, if_pos htaken]
    trivial
  have hsound := h.run_place name shape
  rw [run_place, if_neg hwide, if_neg htaken, hpast] at hsound ⊢
  simp only [h.adjoining.checkLast (e := m.entryFor name shape) rfl] at hsound ⊢
  exact ⟨hsound, rfl⟩

end RegisterMap

/-! ### Designs -/

theorem Endpoint.Within.top {size : Nat} (name : String) : (Endpoint.top name).Within size :=
  trivial

theorem Endpoint.Within.mono {size size' : Nat} {e : Endpoint} (h : e.Within size)
    (hle : size ≤ size') : e.Within size' := by
  cases e with
  | top name => trivial
  | port index name => exact Nat.lt_of_lt_of_le h hle

namespace Netlist

theorem small_empty (name : String) : (empty name).Small where
  ports := List.forall_mem_nil _
  wires := List.forall_mem_nil _
  components := List.forall_mem_nil _
  targets := List.forall_mem_nil _
  sources := List.forall_mem_nil _
  registers := .empty
  entries := List.forall_mem_nil _

namespace Small

variable {n : Netlist} (h : n.Small) {name : String} {shape : Shape}

include h

theorem wire? (hwire : n.wire? name = some shape) : shape.Small := by
  rcases Option.map_eq_some_iff.mp hwire with ⟨w, hw, rfl⟩
  exact h.wires w (List.mem_of_find?_eq_some hw)

theorem port? {direction : Direction} (hport : n.port? name = some (shape, direction)) :
    shape.Small := by
  rcases Option.map_eq_some_iff.mp hport with ⟨p, hp, hsame⟩
  exact (Prod.mk.inj hsame).1 ▸ h.ports p (List.mem_of_find?_eq_some hp)

theorem answers_addWire (hshape : shape.validate = .ok () → shape.Small) :
    Answers (n.addWire name shape) fun m =>
      m.Small ∧ m.components = n.components ∧ m.registers = n.registers := by
  refine shape.answers_validate.bind_ok fun _ hvalid _ => ?_
  split
  · trivial
  · exact ⟨{ h with
      wires := List.forall_mem_append.mpr
        ⟨h.wires, List.forall_mem_singleton.mpr (hshape hvalid)⟩ },
      rfl, rfl⟩

theorem answers_addPort {direction : Direction} (hshape : shape.Small) :
    Answers (n.addPort name shape direction) fun m =>
      m.Small ∧ m.components = n.components ∧ m.registers = n.registers := by
  unfold addPort
  split
  · trivial
  · exact ⟨{ h with
      ports := List.forall_mem_append.mpr ⟨h.ports, List.forall_mem_singleton.mpr hshape⟩ },
      rfl, rfl⟩

theorem answers_addComponent {c : Component} (hc : c.Fine) :
    Answers (n.addComponent c) fun r => r.1.Small ∧ r.2 = n.components.length ∧
      r.1.components.length = n.components.length + 1 ∧ r.1.registers = n.registers := by
  unfold addComponent
  split
  · trivial
  have hlength : (n.components ++ [c]).length = n.components.length + 1 := by
    rw [List.length_append, List.length_singleton]
  refine ⟨{ h with
    components := List.forall_mem_append.mpr ⟨h.components, List.forall_mem_singleton.mpr hc⟩
    targets := fun d hd => (h.targets d hd).mono ?_
    sources := fun d hd e he => (h.sources d hd e he).mono ?_ }, rfl, hlength, rfl⟩
  · exact hlength ▸ Nat.le_succ _
  · exact hlength ▸ Nat.le_succ _

theorem setComponent {index : Nat} {c : Component} (hc : c.Fine) :
    (n.setComponent index c).Small := by
  have hlength : (n.components.set index c).length = n.components.length := List.length_set
  refine { h with
    components := fun d hd => ?_
    targets := fun d hd => (h.targets d hd).mono (Nat.le_of_eq hlength.symm)
    sources := fun d hd e he => (h.sources d hd e he).mono (Nat.le_of_eq hlength.symm) }
  rcases List.mem_or_eq_of_mem_set hd with hd | rfl
  · exact h.components d hd
  · exact hc

theorem connect {target source : Endpoint} (htarget : target.Within n.components.length)
    (hsource : source.Within n.components.length) : (n.connect target (.endpoint source)).Small :=
  { h with
    targets := List.forall_mem_append.mpr ⟨h.targets, List.forall_mem_singleton.mpr htarget⟩
    sources := List.forall_mem_append.mpr ⟨h.sources, List.forall_mem_singleton.mpr fun _ he =>
      Source.endpoint.inj he ▸ hsource⟩ }

/-- A component that is there is found. -/
theorem component_of_lt {index : Nat} (hindex : index < n.components.length) :
    ∃ c, n.component index = .ok c ∧ c.Fine :=
  ⟨n.components[index], component_ok.mpr (List.getElem?_eq_getElem hindex),
    h.components _ (List.getElem_mem hindex)⟩

end Small

end Netlist

namespace Construction

/-- Everything that is remembered is small. There is a component with number `last`, the slave
    interface is the first one, and the register map has room for so many bytes more. -/
structure Sturdy (last room : Nat) (c : Construction) : Prop where
  netlist : c.netlist.Small
  slave : c.slave = 0
  last_lt : last < c.netlist.components.length
  room : c.netlist.registers.cursor + room < Word.limit
  nest : ∀ nest ∈ c.nest, nest.Small
  outputs : ∀ o ∈ c.outputs, ∀ store ∈ o.2.storeExtents, store < Word.limit

variable {last room : Nat} {α : Type} {R : α → Construction → Prop}

namespace Sturdy

variable {c : Construction} (h : Sturdy last room c)

include h

/-- Another design may take the place of the one at hand. -/
theorem of_netlist {n : Netlist} (hn : n.Small)
    (hlength : n.components.length = c.netlist.components.length)
    (hregisters : n.registers = c.netlist.registers) : Sturdy last room { c with netlist := n } :=
  { h with netlist := hn, last_lt := hlength ▸ h.last_lt, room := hregisters ▸ h.room }

theorem forget {first : Nat} (hle : first ≤ last) : Sturdy first room c :=
  { h with last_lt := Nat.lt_of_le_of_lt hle h.last_lt }

theorem withNest {nest : Option LoopNest} (hnest : ∀ n ∈ nest, n.Small) :
    Sturdy last room { c with nest } := { h with nest := hnest }

end Sturdy

/-- In the end it does not matter which component came last. -/
theorem answers_forget {index : Nat} (hlt : last < index) {m : Constructing α}
    (h : Answering (Sturdy index room) m fun _ => Sturdy index room) :
    Answering (Sturdy index room) m fun _ => Sturdy last room :=
  h.weaken (fun _ h => h) fun _ _ h => h.forget hlt.le

theorem answers_tryUpdate {P : Construction → Prop} {Q : Construction → Prop}
    {change : Netlist → Fallible Netlist}
    (hchange : ∀ c, P c → Answers (change c.netlist) fun n => Q { c with netlist := n }) :
    Answering P (tryUpdate change) fun _ => Q := by
  refine .get_bind fun c hc => .lift_bind (hchange c hc) fun n _ hn => ?_
  exact .change fun _ hsame => hsame ▸ hn

theorem answers_connect {target source : Endpoint} (htarget : target.Within (last + 1))
    (hsource : source.Within (last + 1)) :
    Answering (Sturdy last room) (connect target source) fun _ => Sturdy last room :=
  .change fun _ h => h.of_netlist
    (h.netlist.connect (htarget.mono h.last_lt) (hsource.mono h.last_lt)) rfl rfl

theorem answers_addWire {name : String} {shape : Shape}
    (hshape : shape.validate = .ok () → shape.Small) :
    Answering (Sturdy last room) (addWire name shape) fun _ => Sturdy last room :=
  answers_tryUpdate fun _ h => (h.netlist.answers_addWire hshape).mono fun _ hm =>
    h.of_netlist hm.1 (congrArg List.length hm.2.1) hm.2.2

theorem answers_addPort {name : String} {shape : Shape} {direction : Direction}
    (hshape : shape.Small) :
    Answering (Sturdy last room) (addPort name shape direction) fun _ => Sturdy last room :=
  answers_tryUpdate fun _ h => (h.netlist.answers_addPort hshape).mono fun _ hm =>
    h.of_netlist hm.1 (congrArg List.length hm.2.1) hm.2.2

/-- The number of a new component is in range from then on. -/
theorem answers_addComponent {component : Component} (hfine : component.Fine)
    {f : Nat → Constructing α}
    (hf : ∀ index, last < index → Answering (Sturdy index room) (f index) R) :
    Answering (Sturdy last room) (addComponent component >>= f) R := by
  -- The new number is in range in what is left, so the bound on numbers grows from `last` to
  -- `index`.
  have hadd : Answering (Sturdy last room) (addComponent component) fun index c =>
      last < index ∧ Sturdy index room c := by
    refine .get_bind fun c h => .lift_bind (h.netlist.answers_addComponent hfine)
      fun ⟨n, index⟩ _ ⟨hn, hindex, hlength, hregisters⟩ => ?_
    have hindex : index = c.netlist.components.length := hindex
    have hlt : last < index := hindex ▸ h.last_lt
    refine .bind (Q := fun _ => Sturdy index room) (.change fun _ hsame => ?_) fun _ =>
      .pure fun _ h' => ⟨hlt, h'⟩
    rcases hsame with rfl
    exact { h with
      netlist := hn
      last_lt := by rw [hlength, hindex]; exact Nat.lt_succ_self _
      room := hregisters ▸ h.room }
  exact hadd.bind fun index => .assume (fun _ h => h.1) fun hlt =>
    (hf index hlt).weaken (fun _ h => h.2) fun _ _ h => h

theorem answers_updateSlave {change : Component → Fallible Component}
    (hchange : ∀ s, s.Fine → Answers (change s) fun s' => s'.Fine ∧ s'.kind = s.kind) :
    Answering (Sturdy last room) (updateSlave change) fun _ => Sturdy last room := by
  refine .get_bind fun c h => answers_tryUpdate fun d hsame => ?_
  rcases hsame with rfl
  have hslave := h.slave ▸ Nat.zero_lt_of_lt h.last_lt
  rcases h.netlist.component_of_lt hslave with ⟨s, hs, hfine⟩
  exact .bind_of_ok hs ((hchange s hfine).bind fun s' hs' =>
    h.of_netlist (h.netlist.setComponent hs'.1) List.length_set rfl)

theorem answers_slavePort (name : String) :
    Answering (Sturdy last room) (slavePort name) fun e c =>
      e.Within (last + 1) ∧ Sturdy last room c :=
  .get_bind fun _ h => .pure fun _ hsame => ⟨h.slave ▸ Nat.succ_pos _, hsame.symm ▸ h⟩

theorem answers_addStateful {component : Component} (hfine : component.Fine)
    {f : Nat → Constructing α}
    (hf : ∀ index, last < index → Answering (Sturdy index room) (f index) R) :
    Answering (Sturdy last room) (addStateful component >>= f) R := by
  have hrun : addStateful component >>= f = addComponent component >>= fun index => (do
      updateSlave fun slave => slave.addInput (component.instanceName ++ doneEnding) .bit
      connect (.port index startPort) (← slavePort startOutput)
      connect (← slavePort (component.instanceName ++ doneEnding)) (.port index donePort)
      f index) := by
    simp only [addStateful, bind_assoc, pure_bind]
  rw [hrun]
  refine answers_addComponent hfine fun index hlt => ?_
  have hindex : ∀ port, Endpoint.Within (index + 1) (.port index port) := fun _ =>
    Nat.lt_succ_self _
  exact (answers_updateSlave fun s hs => hs.answers_addInput Shape.small_bit).bind fun _ =>
    (answers_slavePort _).bind_and fun start hstart => (answers_connect (hindex _) hstart).bind
      fun _ => (answers_slavePort _).bind_and fun done hdone =>
        (answers_connect hdone (hindex _)).bind fun _ => hf index hlt

/-- A component with one port in each direction. -/
theorem answers_withPorts {P : Construction → Prop} {name input output : String}
    {kind : ComponentKind} {inner outer : Shape} (hkind : kind.Small) (hinner : inner.Small)
    (houter : outer.Small) {f : Component → Constructing α}
    (hf : ∀ c : Component, c.Fine → Answering P (f c) R) :
    Answering P (do
      let c ← (Component.ofKind name kind).addInput input inner
      let c ← c.addOutput output outer
      f c) R :=
  .lift_bind ((Component.fine_ofKind name hkind).answers_addInput hinner) fun _ _ hc =>
    .lift_bind (hc.1.answers_addOutput houter) fun d _ hd => hf d hd.1

/-- A queue is as deep as its stream asks for. -/
theorem answers_driveQueued {stream : String} {shape : Shape} {source : Endpoint}
    (hshape : shape.Small) (hstream : shape.isStream = true) (hsource : source.Within (last + 1)) :
    Answering (Sturdy last room) (driveQueued stream shape source) fun _ => Sturdy last room := by
  -- The depth of a small stream leaves room for the one the queue counts beyond it.
  have hdepth : (ComponentKind.queue (max shape.fifoDepth 1)).Small := by
    have hlt := hshape.depth_lt hstream
    have hlimit : 1 + 1 < Word.limit := by decide
    change max shape.fifoDepth 1 + 1 < Word.limit
    omega
  refine answers_withPorts hdepth hshape hshape fun queue hqueue =>
    answers_addComponent hqueue fun index hlt => ?_
  refine (answers_connect (Nat.lt_succ_self _) (hsource.mono (Nat.succ_le_succ hlt.le))).bind
    fun _ => ?_
  exact answers_forget hlt (answers_connect (.top _) (Nat.lt_succ_self _))

theorem answers_addQueued {stream : String} {shape : Shape} {source : Endpoint}
    (hshape : shape.Small) (hstream : shape.isStream = true) (hsource : source.Within (last + 1)) :
    Answering (Sturdy last room) (addQueued stream shape source) fun _ => Sturdy last room := by
  have hdrive : Answering (Sturdy last room) (driveQueued stream shape source) fun _ =>
      Sturdy last room := answers_driveQueued hshape hstream hsource
  -- An output that has its wire already is only connected.
  refine .look fun c h => ?_
  split
  · exact (answers_addWire fun _ => hshape).bind fun _ => hdrive
  · exact hdrive

theorem answers_streamShape (stream : String) :
    Answering (Sturdy last room) (streamShape stream) fun shape c =>
      (shape.Small ∧ shape.isStream = true) ∧ Sturdy last room c := by
  refine .look fun c h => ?_
  split
  · next shape hshape =>
    rw [Option.filter_eq_some_iff] at hshape
    exact .pure fun _ hd => ⟨⟨h.netlist.wire? hshape.1, hshape.2⟩, hd⟩
  · exact fun _ _ => trivial

/-! ### Arguments -/

end Construction

/-- The bytes that an argument takes in the register map. -/
def Argument.bytes (a : Argument) : Nat := if a.isStream then 0 else 4 * volume a.stencilType.bounds

/-- The elements of an argument can be counted in 32 bits, and the queue of a stream is not
    endless. -/
def Argument.Moderate (a : Argument) : Prop :=
  volume a.stencilType.bounds < 2 ^ 32 ∧
    (a.isStream = true → a.stencilType.depth.toNat + 1 < Word.limit)

instance (a : Argument) : Decidable a.Moderate := inferInstanceAs (Decidable (_ ∧ (_ → _)))

namespace Construction

theorem answers_addParameter {arg : Argument} {shape : Shape}
    (hshape : shape.isStream = false → shape.Small) :
    Answering (Sturdy last (4 * shape.extents.prod + room)) (addParameter arg shape) fun _ =>
      Sturdy last room := by
  unfold addParameter
  split
  · exact fun _ _ => trivial
  next hplain =>
  have hsmall := hshape (Bool.eq_false_iff.mpr hplain)
  -- The words of the parameter are taken from the room that is kept for it.
  refine .bind (Q := fun _ => Sturdy last room) (answers_tryUpdate fun c h => ?_) fun _ => ?_
  · have hroom := h.room
    refine (RegisterMap.answers_allocate h.netlist.registers hsmall (by omega)).bind
      fun placed hplaced => ?_
    rcases placed with ⟨registers, start⟩
    rcases hplaced with ⟨hsound, hregisters⟩
    have hregisters : registers = _ := hregisters
    refine { h with netlist := { h.netlist with registers := hsound, entries := ?_ }, room := ?_ }
    · rw [hregisters]
      refine List.forall_mem_append.mpr ⟨h.netlist.entries, List.forall_mem_singleton.mpr ?_⟩
      exact hsmall.asStencil
    · simp only [hregisters]
      omega
  · exact (answers_updateSlave fun s hs => hs.answers_addOutput hsmall).bind fun _ =>
      (answers_addWire fun _ => hsmall).bind fun _ => (answers_slavePort _).bind_and
        fun port hport => answers_connect (.top _) hport

theorem answers_addInputStream {arg : Argument} {shape : Shape} (hshape : shape.Small)
    (hkind : shape.kind = .busStream) :
    Answering (Sturdy last room) (addInputStream arg shape) fun _ => Sturdy last room := by
  have hstream : shape.isStream = true := by simp [Shape.isStream, hkind]
  have hinner : (shape.withKind .stream).Small := hshape.withKind hstream rfl
  refine answers_withPorts (by trivial) hshape hinner fun adapter hadapter =>
    answers_addStateful hadapter fun index hlt => (answers_addPort hshape).bind fun _ =>
      (answers_connect (Nat.lt_succ_self _) (.top _)).bind fun _ => ?_
  exact answers_forget hlt (answers_addQueued hinner rfl (Nat.lt_succ_self _))

theorem answers_addOutputStream {arg : Argument} {shape : Shape} (hshape : shape.Small)
    (hkind : shape.kind = .busStream) :
    Answering (Sturdy last room) (addOutputStream arg shape) fun _ => Sturdy last room := by
  have hstream : shape.isStream = true := by simp [Shape.isStream, hkind]
  refine .bind (Q := fun _ => Sturdy last room) (.change fun c h => ?_) fun _ =>
    answers_addWire fun _ => hshape.withKind hstream rfl
  refine { h with outputs := List.forall_mem_append.mpr ⟨h.outputs, ?_⟩ }
  exact List.forall_mem_singleton.mpr hshape.stores_lt

/-- An argument of a moderate kernel is added or refused. -/
theorem answers_addArgument {arg : Argument} (harg : arg.Moderate) :
    Answering (Sturdy last (arg.bytes + room)) (addArgument arg) fun _ => Sturdy last room := by
  refine .lift_bind (Shape.answers_ofStencilType harg.1) fun shape _ ⟨hvolume, hshape⟩ => ?_
  -- Only parameters take room in the register map.
  cases hstream : arg.isStream with
  | false =>
      have hbytes : arg.bytes = 4 * shape.extents.prod := by
        rw [Argument.bytes, hstream, hvolume]
        rfl
      rw [hbytes]
      exact answers_addParameter fun hplain => hshape fun h => absurd h (by simp [hplain])
  | true =>
      have hbytes : arg.bytes = 0 := by
        rw [Argument.bytes, hstream]
        rfl
      rw [hbytes, Nat.zero_add]
      have hsmall := hshape fun _ => harg.2 hstream
      simp only [Bool.not_true, Bool.false_eq_true, if_false]
      split
      · exact fun _ _ => trivial
      next hkind =>
      have hkind := not_not.mp hkind
      split
      · exact answers_addOutputStream hsmall hkind
      · exact answers_addInputStream hsmall hkind

/-- So are all of them, if there is room for the parameters. -/
theorem answers_addArguments {args : List Argument} (hargs : ∀ a ∈ args, a.Moderate) :
    Answering (Sturdy last ((args.map Argument.bytes).sum + room)) (args.forM addArgument) fun _ =>
      Sturdy last room := by
  induction args with
  | nil =>
      rw [List.map_nil, List.sum_nil, Nat.zero_add]
      exact fun _ h => h
  | cons arg rest ih =>
      rw [List.forall_mem_cons] at hargs
      rw [List.map_cons, List.sum_cons, Nat.add_assoc]
      exact (answers_addArgument hargs.1).bind fun _ => ih hargs.2

end Construction

end StencilRtl
