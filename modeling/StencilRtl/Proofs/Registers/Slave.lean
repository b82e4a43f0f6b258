import Mathlib.Data.List.Nodup
import StencilRtl.Proofs.Registers.Layout
import StencilRtl.Proofs.Registers.Strobes
import StencilRtl.Proofs.Rtl.Cases
import StencilRtl.Proofs.Rtl.Fields
import StencilRtl.Proofs.Rtl.Making
import StencilRtl.Proofs.Rtl.Streams

/-!
# The Registers of the Slave Interface

What the host writes to an address and where it comes out.

A scalar is kept in a register and an array in a memory, so what they hold lies in
different parts of a state. `Slot` is a register of either kind, and nothing behind the
first few lemmas asks which one it is. All registers are updated by one process. It goes
through all of them when it resets, and it chooses one by its address when it writes.
The labels of the choice are the addresses, which increase from slot to slot, so none is
hidden by an earlier one as long as they fit the 32 bits that labels have.

An output shows the registers of its parameter, one behind the other, the first one in
the low bits.

## Main definitions

* `Slot`: One register of a parameter.
* `slots`: The registers of all parameters.
* `HasLogic`: A module has the logic of the interface.
* `Written`: A word is written to an address.

## Theorems

* `elements_eq`: The elements of the interface are its slots.
* `held_update`: What a slot holds after an update of one.
* `held_resets`, `held_case`: What the two branches of the process do.
* `make_serves`: What a slot of the module holds, and which bits of the output it is.
-/

namespace StencilRtl

namespace SlaveInterface

open Rtl

/-- One register of a parameter. -/
structure Slot where
  entry : RegisterEntry
  flat : Nat
  deriving DecidableEq

namespace Slot

/-- The address of a register. -/
def address (c : Slot) : Nat := c.entry.offset + 4 * c.flat

/-- The expression of a register. -/
def target (c : Slot) : Rtl.Expr := element c.entry c.flat

/-- The number of bits of a register. -/
def bits (c : Slot) : Nat := c.entry.elem.bits

/-- What a register holds. -/
def held (c : Slot) (s : State) : Nat :=
  if c.entry.isArray then s.cell (storage c.entry) c.flat else s.value (storage c.entry)

theorem held_array {c : Slot} (h : c.entry.isArray = true) (s : State) :
    c.held s = s.cell (storage c.entry) c.flat := if_pos h

theorem held_scalar {c : Slot} (h : c.entry.isArray = false) (s : State) :
    c.held s = s.value (storage c.entry) := if_neg (Bool.eq_false_iff.mp h)

/-- There is room for a register. -/
structure Sized (c : Slot) (Γ : Typing) : Prop where
  array : c.entry.isArray = true → Γ.cellWidth (storage c.entry) = c.bits ∧
    Γ.depth (storage c.entry) = c.entry.extents.prod
  scalar : c.entry.isArray = false → Γ.width (storage c.entry) = c.bits
  below : c.flat < c.entry.extents.prod
  address_lt : c.address < 2 ^ 32

end Slot

/-- The registers of all parameters. -/
def slots (registers : List RegisterEntry) : List Slot :=
  registers.flatMap fun e => (List.range e.extents.prod).map fun flat => ⟨e, flat⟩

theorem mem_slots {registers : List RegisterEntry} {c : Slot} :
    c ∈ slots registers ↔ c.entry ∈ registers ∧ c.flat < c.entry.extents.prod := by
  simp only [slots, List.mem_flatMap, List.mem_map, List.mem_range]
  refine ⟨?_, fun h => ⟨c.entry, h.1, c.flat, h.2, rfl⟩⟩
  rintro ⟨e, he, flat, hflat, rfl⟩
  exact ⟨he, hflat⟩

/-- The elements of the interface are its registers, one behind the other. -/
theorem elements_eq (registers : List RegisterEntry) :
    elements registers = (slots registers).map fun c => (c.address, c.target, c.bits) := by
  rw [elements, slots, List.map_flatMap]
  -- Entry by entry, and in an entry place by place: both lists have as many.
  refine List.flatMap_congr fun e _ => List.ext_getElem? fun k => ?_
  rw [List.getElem?_mapIdx, List.map_map, List.getElem?_map]
  cases hk : e.elements[k]? with
  | none =>
      rw [List.getElem?_eq_none_iff, RegisterEntry.length_elements] at hk
      rw [List.getElem?_eq_none_iff.mpr (by rw [List.length_range]; exact hk)]
      rfl
  | some x =>
      have hlt := (List.getElem?_eq_some_iff.mp hk).1
      rw [RegisterEntry.length_elements] at hlt
      have haddress := RegisterEntry.address_of_getElem? hk
      rcases x with ⟨address, name⟩
      rw [List.getElem?_range hlt, Option.map_some, Option.map_some]
      exact congrArg some (Prod.ext haddress rfl)

theorem map_address_slots (registers : List RegisterEntry) :
    (slots registers).map Slot.address = RegisterMap.addresses registers := by
  rw [slots, RegisterMap.addresses, List.map_flatMap]
  refine List.flatMap_congr fun e _ => ?_
  rw [RegisterEntry.map_fst_elements, List.map_map]
  rfl

section

variable {registers : List RegisterEntry} {Γ : Typing} {s : State} {c d : Slot}

/-- Two registers at one address are one register. -/
theorem eq_of_address (h : (RegisterMap.addresses registers).Pairwise (· < ·))
    (hc : c ∈ slots registers) (hd : d ∈ slots registers) (haddress : c.address = d.address) :
    c = d := by
  rw [← map_address_slots] at h
  exact List.inj_on_of_nodup_map (h.imp fun h => Nat.ne_of_lt h) hc hd haddress

/-- Parameters of one kind with one storage are one parameter. -/
theorem eq_of_storage (h : (registers.map RegisterEntry.name).Nodup) {e e' : RegisterEntry}
    (he : e ∈ registers) (he' : e' ∈ registers) (hkind : e.isArray = e'.isArray)
    (hstorage : storage e = storage e') : e = e' := by
  refine List.inj_on_of_nodup_map h he he' ?_
  rw [storage, storage, hkind] at hstorage
  exact String.append_right_inj _ |>.mp hstorage

/-- The number of a register is small enough to be written as one. -/
theorem Slot.Sized.own_number (hc : c.Sized Γ) : (Expr.number c.flat).own Γ s = c.flat := by
  have hlt : c.flat < 2 ^ 32 := by
    have haddress := hc.address_lt
    rw [Slot.address] at haddress
    omega
  have hofInt : ofInt 32 c.flat = c.flat := by
    rw [ofInt]
    omega
  rw [Expr.own, Expr.size, Expr.value, hofInt, extend, Nat.sub_self, Nat.add_zero, ite_self]

/-- The expression of a register is worth what the register holds. -/
theorem Slot.Sized.isWord (hc : c.Sized Γ) (hsmall : c.held s < 2 ^ c.bits) :
    c.target.IsWord Γ s c.bits (c.held s) := by
  rw [Slot.held] at hsmall ⊢
  rw [Slot.target, element]
  -- An array is kept in a memory, and a scalar in a register of its own.
  cases harray : c.entry.isArray with
  | true =>
      rw [harray, if_pos rfl] at hsmall
      rw [if_pos rfl, if_pos rfl]
      have hwidth := (hc.array harray).1
      have hindex := hc.own_number (s := s)
      rw [Expr.own] at hindex
      refine ⟨by rw [Expr.size, hwidth], by rw [Expr.isSigned], fun context => ?_, hsmall⟩
      rw [Expr.value, hindex, hwidth, Nat.mod_eq_of_lt hsmall]
  | false =>
      rw [harray, if_neg Bool.false_ne_true] at hsmall
      rw [if_neg Bool.false_ne_true, if_neg Bool.false_ne_true]
      exact Expr.isWord_ref (hc.scalar harray) hsmall

/-- A memory after one of its cells has been updated. -/
theorem Slot.Sized.put_array (hd : d.Sized Γ) (harray : d.entry.isArray = true) {read : State}
    {value : Rtl.Expr} {v : Nat} (hvalue : value.assigned Γ read d.bits = v) :
    s.put Γ read d.target value = { s with
      cell := Function.update s.cell (storage d.entry)
        (Function.update (s.cell (storage d.entry)) d.flat v) } := by
  rcases hd.array harray with ⟨hwidth, hdepth⟩
  rw [Slot.target, element, if_pos harray, State.put, hd.own_number, hwidth, hvalue,
    State.setCell, if_pos (by rw [hdepth]; exact hd.below)]

/-- A scalar after it has been updated. -/
theorem Slot.Sized.put_scalar (hd : d.Sized Γ) (harray : d.entry.isArray = false) {read : State}
    {value : Rtl.Expr} {v : Nat} (hvalue : value.assigned Γ read d.bits = v) :
    s.put Γ read d.target value = s.setValue (storage d.entry) v := by
  rw [Slot.target, element, if_neg (Bool.eq_false_iff.mp harray), State.put,
    hd.scalar harray, hvalue]

/-- Registers of one kind differ in their storage or in their number. -/
theorem eq_of_place (hnames : (registers.map RegisterEntry.name).Nodup)
    (hc : c ∈ slots registers) (hd : d ∈ slots registers)
    (hkind : d.entry.isArray = c.entry.isArray)
    (hstorage : storage d.entry = storage c.entry) (hflat : d.flat = c.flat) : d = c := by
  have hentry := eq_of_storage hnames (mem_slots.mp hd).1 (mem_slots.mp hc).1 hkind hstorage
  cases c
  cases d
  exact congrArg₂ Slot.mk hentry hflat

/-- A scalar has one register. -/
theorem flat_of_scalar (hc : c ∈ slots registers) (hscalar : c.entry.isArray = false) :
    c.flat = 0 := by
  have hnone : c.entry.extents = [] := by simpa [RegisterEntry.isArray] using hscalar
  have hlt := (mem_slots.mp hc).2
  rw [hnone, List.prod_nil] at hlt
  omega

/-- What a register holds after one of them has been updated. -/
theorem held_put (hnames : (registers.map RegisterEntry.name).Nodup) (hc : c ∈ slots registers)
    (hd : d ∈ slots registers) (hsized : d.Sized Γ) {read : State} {value : Rtl.Expr} {v : Nat}
    (hvalue : value.assigned Γ read d.bits = v) :
    c.held (s.put Γ read d.target value) = if d = c then v else c.held s := by
  cases hd' : d.entry.isArray with
  | true =>
      rw [hsized.put_array hd' hvalue]
      cases hc' : c.entry.isArray with
      | false =>
          rw [Slot.held_scalar hc', Slot.held_scalar hc', if_neg]
          rintro rfl
          rw [hc'] at hd'
          exact Bool.false_ne_true hd'
      | true =>
          -- Cells of one memory differ in their number, and memories in their names.
          rw [Slot.held_array hc', Slot.held_array hc']
          simp only []
          by_cases hstorage : storage c.entry = storage d.entry
          · rw [hstorage]
            simp only [Function.update_self]
            rw [Function.update_apply (s.cell (storage d.entry))]
            refine if_congr ⟨fun hflat => ?_, fun hsame => by rw [hsame]⟩ rfl rfl
            exact eq_of_place hnames hc hd (hd'.trans hc'.symm) hstorage.symm hflat.symm
          · rw [Function.update_of_ne hstorage, if_neg]
            rintro rfl
            exact hstorage rfl
  | false =>
      rw [hsized.put_scalar hd' hvalue]
      cases hc' : c.entry.isArray with
      | true =>
          rw [Slot.held_array hc', Slot.held_array hc', if_neg]
          · rfl
          · rintro rfl
            rw [hd'] at hc'
            exact Bool.false_ne_true hc'
      | false =>
          rw [Slot.held_scalar hc', Slot.held_scalar hc', State.setValue]
          simp only []
          rw [Function.update_apply s.value]
          refine if_congr ⟨fun hstorage => ?_, fun hsame => by rw [hsame]⟩ rfl rfl
          refine eq_of_place hnames hc hd (hd'.trans hc'.symm) hstorage.symm ?_
          rw [flat_of_scalar hd hd', flat_of_scalar hc hc']

theorem target?_target (c : Slot) : c.target.target? = some (storage c.entry) := by
  rw [Slot.target, element]
  split <;> rfl

/-- States that agree on a storage agree on its registers. -/
theorem held_of_same (hc : c.Sized Γ) {t : State} (h : State.Same Γ s t (storage c.entry)) :
    c.held s = c.held t := by
  cases hkind : c.entry.isArray with
  | true =>
      rw [Slot.held_array hkind, Slot.held_array hkind]
      exact h.2 _ (by rw [(hc.array hkind).2]; exact hc.below)
  | false =>
      rw [Slot.held_scalar hkind, Slot.held_scalar hkind]
      exact h.1

/-- A register is zero once it has been among those that are reset. -/
theorem held_resets (hnames : (registers.map RegisterEntry.name).Nodup) (hc : c ∈ slots registers)
    {xs : List Slot} (hxs : ∀ d ∈ xs, d ∈ slots registers ∧ d.Sized Γ) {p : Progress}
    (h : c.held p.after = 0 ∨ c ∈ xs) :
    c.held (Stmt.executeAll Γ p (xs.map fun d => .update d.target (.number 0))).after = 0 := by
  induction xs generalizing p with
  | nil => exact h.resolve_right List.not_mem_nil
  | cons d rest ih =>
      have hzero : (Rtl.Expr.number 0).assigned Γ p.now d.bits = 0 := by
        have hword : ofInt 32 0 = 0 := rfl
        rw [Expr.assigned, Expr.value, hword, extend, if_neg (by simp), Nat.zero_mod]
      have hput := held_put hnames hc (hxs d (List.mem_cons_self ..)).1
        (hxs d (List.mem_cons_self ..)).2 hzero (s := p.after)
      rw [List.map_cons, Stmt.executeAll]
      refine ih (fun d' hd' => hxs d' (List.mem_cons_of_mem d hd')) ?_
      -- From its own reset on the register is zero, and the other ones do not change that.
      by_cases hsame : d = c
      · rw [if_pos hsame] at hput
        exact .inl hput
      · rw [if_neg hsame] at hput
        exact h.imp hput.trans fun hmem => (List.mem_cons.mp hmem).resolve_left (Ne.symm hsame)

/-- The branches of a write, one for each register. -/
theorem writes_eq (registers : List RegisterEntry) :
    ((elements registers).map fun (address, target, width) =>
        (signed32 address, [Stmt.update target (strobed target width)]))
      = ((slots registers).map fun d =>
          (d.address, [Stmt.update d.target (strobed d.target d.bits)])).map fun b =>
            (signed32 b.1, b.2) := by
  rw [elements_eq, List.map_map, List.map_map]
  rfl

/-- Of the branches of a write only the one with the address of a register changes it. -/
theorem held_case (hnames : (registers.map RegisterEntry.name).Nodup)
    (haddresses : (RegisterMap.addresses registers).Pairwise (· < ·))
    (hsized : ∀ d ∈ slots registers, d.Sized Γ) (hc : c ∈ slots registers)
    (hwritten : (strobed c.target c.bits).assigned Γ s c.bits
      = merged c.bits (s.value "WSTRB") (s.value "WDATA") (c.held s)) :
    c.held (Stmt.executeCase Γ ⟨s, s⟩ ⟨s, s⟩ (.ref "waddr")
        ((elements registers).map fun (address, target, width) =>
          (signed32 address, [Stmt.update target (strobed target width)]))).after
      = if s.value "waddr" = c.address then
          merged c.bits (s.value "WSTRB") (s.value "WDATA") (c.held s)
        else c.held s := by
  have hlabels : ∀ b ∈ (slots registers).map fun d =>
      (d.address, [Stmt.update d.target (strobed d.target d.bits)]), b.1 < 2 ^ 32 := by
    intro b hb
    rcases List.mem_map.mp hb with ⟨d, hd, rfl⟩
    exact (hsized d hd).address_lt
  rw [writes_eq, Stmt.executeCase_find hlabels]
  cases hfound : ((slots registers).map fun d =>
      (d.address, [Stmt.update d.target (strobed d.target d.bits)])).find? fun b =>
        b.1 = s.value "waddr" with
  | none =>
      have hother := List.find?_eq_none.mp hfound _ (List.mem_map_of_mem hc)
      rw [if_neg fun haddress => hother (decide_eq_true haddress.symm)]
      rfl
  | some b =>
      -- The branch found may be that of another register, which then has another address.
      have hlabel := List.find?_some hfound
      rw [decide_eq_true_eq] at hlabel
      rcases List.mem_map.mp (List.mem_of_find?_eq_some hfound) with ⟨d, hd, rfl⟩
      rw [Option.map_some, Option.getD_some, Stmt.executeAll, Stmt.executeAll, Stmt.execute,
        held_put hnames hc hd (hsized d hd) rfl, ← hlabel]
      by_cases hsame : d = c
      · subst hsame
        rw [if_pos rfl, if_pos rfl, hwritten]
      · rw [if_neg hsame, if_neg fun haddress => hsame (eq_of_address haddresses hd hc haddress)]

end

/-- A module has the logic of the interface, as far as parameters are written and
    shown. -/
structure HasLogic (registers : List RegisterEntry) (m : Module) : Prop where
  waddr : ("waddr", addressWidth) ∈ m.signals
  latched : ∃ items, Body.enabled (.ref "waddr") writeAddressChannel.handshake (.ref "AWADDR")
    = .ok items ∧ ∀ i ∈ items, i ∈ m.body
  enable : ("wr_en", 1) ∈ m.signals
  enables : .assign (.ref "wr_en") writeDataChannel.handshake ∈ m.body
  memories : ∀ e ∈ registers, e.isArray = true →
    (storage e, e.elem.bits, e.extents.prod) ∈ m.memories
  scalars : ∀ e ∈ registers, e.isArray = false → (storage e, e.elem.bits) ∈ m.signals
  writes : ∃ items, writeBody registers = .ok items ∧ ∀ i ∈ items, i ∈ m.body
  arrays : ∀ e ∈ registers, e.isArray = true →
    .assign (.ref e.name) (.concat ((List.range e.extents.prod).map (element e))) ∈ m.body
  singles : ∀ e ∈ registers, e.isArray = false →
    .assign (.ref e.name) (.ref (storage e)) ∈ m.body

theorem body_ok {registers : List RegisterEntry} {dones : List String} {m : Module}
    (h : body registers dones = .ok m.body) : HasLogic registers m := by
  have henable := Body.join_net h (List.mem_of_getElem? (i := 8) rfl)
  rcases Body.join_ok h _ (List.mem_of_getElem? (i := 5) rfl) with ⟨kept, hkept, hstored⟩
  rcases Body.join_ok h _ (List.mem_of_getElem? (i := 17) rfl) with ⟨shown, hshown, houtputs⟩
  -- Each register has a declaration and an output of its own, and both depend on whether
  -- it is an array.
  have hstorage : ∀ e ∈ registers, ∃ own, storageDeclaration e = .ok own ∧ ∀ i ∈ own, i ∈ m.body :=
    fun e he => Body.join_part hkept hstored (List.mem_map_of_mem he)
  have houtput : ∀ e ∈ registers, ∃ own, parameterOutput e = .ok own ∧ ∀ i ∈ own, i ∈ m.body :=
    fun e he => Body.join_part hshown houtputs (List.mem_map_of_mem he)
  exact {
    waddr := Module.signals_of_reg (Body.join_reg h (List.mem_of_getElem? (i := 0) rfl))
    latched := Body.join_ok h _ (List.mem_of_getElem? (i := 7) rfl)
    enable := Module.signals_of_wire henable.1
    enables := henable.2
    memories := fun e he harray => by
      rcases hstorage e he with ⟨own, hown, hsub⟩
      rw [storageDeclaration, if_pos harray] at hown
      rcases Fallible.bind_ok.mp hown with ⟨count, hcount, hmemory⟩
      rcases Body.memory_ok hmemory with ⟨_, rfl⟩
      rw [← RegisterEntry.words_ok hcount]
      exact Module.memories_of_memory (hsub _ (List.mem_singleton_self _))
    scalars := fun e he hscalar => by
      rcases hstorage e he with ⟨own, hown, hsub⟩
      rw [storageDeclaration, if_neg (Bool.eq_false_iff.mp hscalar)] at hown
      rcases Body.reg_ok hown with ⟨_, rfl⟩
      exact Module.signals_of_reg (hsub _ (List.mem_singleton_self _))
    writes := Body.join_ok h _ (List.mem_of_getElem? (i := 15) rfl)
    arrays := fun e he harray => by
      rcases houtput e he with ⟨own, hown, hsub⟩
      rw [parameterOutput, if_pos harray] at hown
      rcases Fallible.bind_ok.mp hown with ⟨count, hcount, hassign⟩
      rcases Except.ok.inj hassign with rfl
      rw [← RegisterEntry.words_ok hcount]
      exact hsub _ (List.mem_singleton_self _)
    singles := fun e he hscalar => by
      rcases houtput e he with ⟨own, hown, hsub⟩
      rw [parameterOutput, if_neg (Bool.eq_false_iff.mp hscalar)] at hown
      rcases Except.ok.inj hown with rfl
      have hitem := hsub _ (List.mem_singleton_self _)
      rwa [element, if_neg (Bool.eq_false_iff.mp hscalar)] at hitem }

/-- The module of a slave interface could be made. -/
theorem make_built {c : Component} {map : RegisterMap} {w w' : Workshop} {name : String}
    (hlacks : w.library.Lacks (.slaveInterface map.entries (doneInputs c)))
    (h : Returns (make c map) w name w') : map.validate = .ok () ∧ ∃ m,
      w'.library.module? name = some m ∧ c.modulePorts = .ok m.ports ∧
        body map.entries (doneInputs c) = .ok m.body := by
  unfold make at h
  rcases returns_lift_bind.mp h with ⟨_, hvalid, hneeds⟩
  rcases Making.returns_of_lacks hlacks hneeds with ⟨hfree, hmade⟩
  rcases returns_lift_bind.mp hmade with ⟨_, _, hmodule⟩
  rcases returns_lift_bind.mp hmodule with ⟨ports, hports, hbodies⟩
  rcases returns_lift_bind.mp hbodies with ⟨items, hitems, hdefines⟩
  rcases Making.module_of_define hfree hdefines with ⟨rfl, hcontent⟩
  exact ⟨hvalid, ⟨"SlaveIf", ports, items⟩, hcontent, hports, hitems⟩

/-- A word is written to an address: it passes, and the address was taken before. -/
def Written (s : State) (address : Nat) : Prop :=
  s.value "WVALID" = 1 ∧ s.value "WREADY" = 1 ∧ s.value "waddr" = address

instance (s : State) (address : Nat) : Decidable (Written s address) :=
  inferInstanceAs (Decidable (_ ∧ _ ∧ _))

/-- A module has the signals of the bus and the reset. -/
structure HasBus (m : Module) : Prop where
  reset : (reset, 1) ∈ m.signals
  bus : ∀ p ∈ busPorts, (p.1, p.2.1) ∈ m.signals

/-- The signals of the bus are ports of the module. -/
theorem hasBus_of_modulePorts {c : Component} {m : Module} (h : c.modulePorts = .ok m.ports)
    (hbus : ∀ p ∈ busPorts, c.port? p.1 = some (.uint p.2.1, p.2.2)) : HasBus m := by
  refine ⟨Component.reset_of_modulePorts h, fun p hp => ?_⟩
  have hport : c.portShape p.1 = .ok (.uint p.2.1) := by
    rw [Component.portShape, hbus p hp]
  have hsignal := Component.signal_of_modulePorts h hport rfl
  rwa [Shape.uint, Shape.scalar, List.prod_nil, Nat.one_mul] at hsignal

/-- A register that takes what is beside a handshake has it from then on. -/
theorem latched_next {library : String → Option Module} {m : Module} {Γ : Typing}
    {τ : Nat → State} (h : m.Runs library Γ τ) {c : BusChannel} {register data : String}
    {width : Nat} {items : List Item}
    (hitems : Body.enabled (.ref register) c.handshake (.ref data) = .ok items)
    (hsub : ∀ i ∈ items, i ∈ m.body) (hvalid : (c.valid, 1) ∈ m.signals)
    (hready : (c.ready, 1) ∈ m.signals) (hregister : (register, width) ∈ m.signals)
    (hdata : (data, width) ∈ m.signals) (t : Nat) : (τ (t + 1)).value register
      = if (τ t).value c.valid = 1 ∧ (τ t).value c.ready = 1 then (τ t).value data
        else (τ t).value register := by
  have hpasses : c.handshake.own Γ (τ t) ≠ 0
      ↔ (τ t).value c.valid = 1 ∧ (τ t).value c.ready = 1 :=
    ((h.isBit hvalid t).and (h.isBit hready t)).own_ne_zero
  rw [h.enabled_next hitems hsub, State.firstHolding, State.firstHolding, h.width_eq hregister,
    Expr.assigned_ref (h.value_lt hdata t)]
  exact if_congr hpasses rfl rfl

namespace HasLogic

variable {registers : List RegisterEntry} {library : String → Option Module} {m : Module}
  {Γ : Typing} {τ : Nat → State} {c : Slot}

/-- There is room for the registers at addresses of the bus. -/
theorem sized (hlogic : HasLogic registers m) (h : m.Runs library Γ τ)
    (hroom : ∀ a ∈ RegisterMap.addresses registers, a < 2 ^ 32) (hc : c ∈ slots registers) :
    c.Sized Γ := by
  rcases mem_slots.mp hc with ⟨hentry, hbelow⟩
  refine ⟨fun harray => h.memory_eq (hlogic.memories _ hentry harray),
    fun hscalar => h.width_eq (hlogic.scalars _ hentry hscalar), hbelow, hroom _ ?_⟩
  rw [← map_address_slots]
  exact List.mem_map_of_mem hc

/-- What a register holds is a word of its size. -/
theorem held_lt (hlogic : HasLogic registers m) (h : m.Runs library Γ τ)
    (hc : c ∈ slots registers) (t : Nat) : c.held (τ t) < 2 ^ c.bits := by
  rcases mem_slots.mp hc with ⟨hentry, hbelow⟩
  cases hkind : c.entry.isArray with
  | true =>
      rw [Slot.held_array hkind]
      exact ((h.typed t).memory _ (hlogic.memories _ hentry hkind)).2.2 _ hbelow
  | false =>
      rw [Slot.held_scalar hkind]
      exact h.value_lt (hlogic.scalars _ hentry hkind) t

section

variable (hlogic : HasLogic registers m) (hbus : HasBus m) (h : m.Runs library Γ τ) (t : Nat)

include hlogic hbus h

/-- The address that is written to is the one that was taken last. -/
theorem waddr_next : (τ (t + 1)).value "waddr"
    = if (τ t).value "AWVALID" = 1 ∧ (τ t).value "AWREADY" = 1 then (τ t).value "AWADDR"
      else (τ t).value "waddr" := by
  rcases hlogic.latched with ⟨items, hitems, hsub⟩
  exact latched_next h hitems hsub (hbus.bus ("AWVALID", 1, .input) (by decide))
    (hbus.bus ("AWREADY", 1, .output) (by decide)) hlogic.waddr
    (hbus.bus ("AWADDR", 32, .input) (by decide)) t

/-- A word passes when the interface is enabled to write. -/
theorem wr_en_iff :
    (τ t).value "wr_en" = 1 ↔ (τ t).value "WVALID" = 1 ∧ (τ t).value "WREADY" = 1 :=
  h.bit_iff hlogic.enable hlogic.enables
    ((h.isBit (hbus.bus ("WVALID", 1, .input) (by decide)) t).and
      (h.isBit (hbus.bus ("WREADY", 1, .output) (by decide)) t))

/-- A register is cleared by the reset and changed by a word that is written to its own
    address. -/
theorem held_next (hnames : (registers.map RegisterEntry.name).Nodup)
    (haddresses : (RegisterMap.addresses registers).Pairwise (· < ·))
    (hroom : ∀ a ∈ RegisterMap.addresses registers, a < 2 ^ 32) (hc : c ∈ slots registers)
    (hnarrow : c.bits ≤ busWidth) :
    c.held (τ (t + 1)) = if (τ t).value reset = 1 then 0
      else if Written (τ t) c.address then
        merged c.bits ((τ t).value "WSTRB") ((τ t).value "WDATA") (c.held (τ t))
      else c.held (τ t) := by
  have hsized : ∀ d ∈ slots registers, d.Sized Γ := fun d hd => hlogic.sized h hroom hd
  have hword := (hsized c hc).isWord (hlogic.held_lt h hc t)
  have hstrobes := hbus.bus ("WSTRB", 4, .input) (by decide)
  have hdata := hbus.bus ("WDATA", 32, .input) (by decide)
  have hwritten := Expr.assigned_strobed
    (Expr.isWord_ref (h.width_eq hstrobes) (h.value_lt hstrobes t))
    (Expr.isWord_ref (h.width_eq hdata) (h.value_lt hdata t)) hword hnarrow
  have hsome : registers ≠ [] := List.ne_nil_of_mem (mem_slots.mp hc).1
  rcases hlogic.writes with ⟨items, hitems, hsub⟩
  rw [writeBody, if_neg hsome] at hitems
  rcases Except.ok.inj hitems with rfl
  have hresets : ((elements registers).map fun (_, target, _) => Stmt.update target (.number 0))
      = (slots registers).map fun d => Stmt.update d.target (.number 0) := by
    rw [elements_eq, List.map_map]
    rfl
  -- A reset goes through all registers, so the process has the storage among its targets.
  have htarget : storage c.entry ∈ Stmt.targetsOfAll
      ((slots registers).map fun d => Stmt.update d.target (.number 0)) := by
    refine Stmt.mem_targetsOfAll (List.mem_map_of_mem hc) ?_
    rw [Stmt.targets, target?_target]
    exact List.mem_singleton_self _
  have hsame := h.holds t _ (hsub _ (List.mem_singleton_self _)) (storage c.entry) (by
    rw [hresets]
    simp only [Stmt.targetsOfAll, Stmt.targets, Stmt.targetsOfBranches, List.mem_append]
    exact .inl (.inl (.inl htarget)))
  rw [held_of_same (hsized c hc) hsame, hresets, Stmt.executeAll, Stmt.executeAll, Stmt.execute,
    Stmt.executeElse, Stmt.executeFirst, Stmt.executeFirst, Stmt.executeFirst]
  have hreset := h.isBit hbus.reset t
  have henable := h.isBit hlogic.enable t
  have hpasses := hlogic.wr_en_iff hbus h t
  by_cases hclear : (τ t).value reset = 1
  · rw [if_pos (hreset.own_ne_zero.mpr hclear), if_pos hclear]
    exact held_resets hnames hc (fun d hd => ⟨hd, hsized d hd⟩) (.inr hc)
  rw [if_neg (mt hreset.own_ne_zero.mp hclear), if_neg hclear]
  by_cases hon : (τ t).value "wr_en" = 1
  · rw [if_pos (henable.own_ne_zero.mpr hon), Stmt.executeAll, Stmt.executeAll, Stmt.execute,
      Stmt.executeElse, held_case hnames haddresses hsized hc hwritten]
    refine if_congr ⟨fun haddress => ?_, fun hwrite => hwrite.2.2⟩ rfl rfl
    exact ⟨(hpasses.mp hon).1, (hpasses.mp hon).2, haddress⟩
  · rw [if_neg (mt henable.own_ne_zero.mp hon), if_neg]
    exact fun hwrite => hon (hpasses.mpr ⟨hwrite.1, hwrite.2.1⟩)

end

/-- The output of a parameter shows its registers, the first one in the low bits. -/
theorem output_eq (hlogic : HasLogic registers m) (h : m.Runs library Γ τ) (t : Nat)
    (hroom : ∀ a ∈ RegisterMap.addresses registers, a < 2 ^ 32) (hc : c ∈ slots registers)
    (houtput : (c.entry.name, c.entry.extents.prod * c.bits) ∈ m.signals) :
    digit c.bits ((τ t).value c.entry.name) c.flat = c.held (τ t) := by
  rcases mem_slots.mp hc with ⟨hentry, hbelow⟩
  have hsmall := hlogic.held_lt h hc t
  cases hkind : c.entry.isArray with
  -- The output is a concatenation with one field for each register of the parameter.
  | true =>
      have hslot : ∀ k < c.entry.extents.prod, (⟨c.entry, k⟩ : Slot) ∈ slots registers :=
        fun k hk => mem_slots.mpr ⟨hentry, hk⟩
      have hword : ∀ k < c.entry.extents.prod, (element c.entry k).IsWord Γ (τ t) c.bits
          ((⟨c.entry, k⟩ : Slot).held (τ t)) := fun k hk =>
        (hlogic.sized h hroom (hslot k hk)).isWord (hlogic.held_lt h (hslot k hk) t)
      have hfields : ∀ e ∈ (List.range c.entry.extents.prod).map (element c.entry),
          e.IsField Γ (τ t) c.bits := by
        intro e he
        rcases List.mem_map.mp he with ⟨k, hk, rfl⟩
        have hk' := hword k (List.mem_range.mp hk)
        refine ⟨hk'.size, hk'.unsigned, fun context signed => ?_, hk'.own_eq ▸ hk'.small⟩
        simp only [Expr.own, element, if_pos hkind, Expr.value]
      have hlength : ((List.range c.entry.extents.prod).map (element c.entry)).length
          = c.entry.extents.prod := by rw [List.length_map, List.length_range]
      have hassigned := h.assigned (hlogic.arrays _ hentry hkind) t
      rw [h.width_eq houtput, Expr.assigned_concat hfields
        (by rw [hlength, Nat.mul_comm])] at hassigned
      have hlt : c.flat < (((List.range c.entry.extents.prod).map (element c.entry)).map
          (Expr.own Γ (τ t))).length := by rw [List.length_map, hlength]; exact hbelow
      rw [hassigned, digit_ofDigits (fun x hx => ?_) hlt, List.getElem_map, List.getElem_map,
        List.getElem_range, (hword c.flat hbelow).own_eq]
      rcases List.mem_map.mp hx with ⟨e, he, rfl⟩
      exact (hfields e he).small
  | false =>
      have hassigned := h.assigned (hlogic.singles _ hentry hkind) t
      have hnone : c.entry.extents = [] := by simpa [RegisterEntry.isArray] using hkind
      rw [Slot.held_scalar hkind] at hsmall ⊢
      rw [hnone, List.prod_nil, Nat.one_mul] at houtput
      rw [h.width_eq houtput, Expr.assigned_ref hsmall] at hassigned
      rw [hassigned, flat_of_scalar hc hkind, digit, Nat.pow_zero, Nat.div_one,
        Nat.mod_eq_of_lt hsmall]

end HasLogic

/-- What becomes of a register: the output shows it behind the registers before
    it, and nothing but a reset and a word written to its own address changes it. -/
structure Serves (c : Slot) (τ : Nat → State) (t : Nat) : Prop where
  shown : digit c.bits ((τ t).value c.entry.name) c.flat = c.held (τ t)
  next : c.held (τ (t + 1)) = if (τ t).value reset = 1 then 0
    else if Written (τ t) c.address then
      merged c.bits ((τ t).value "WSTRB") ((τ t).value "WDATA") (c.held (τ t))
    else c.held (τ t)
  address : (τ (t + 1)).value "waddr"
    = if (τ t).value "AWVALID" = 1 ∧ (τ t).value "AWREADY" = 1 then (τ t).value "AWADDR"
      else (τ t).value "waddr"

/-- A slave interface serves the registers of a parameter, as long as the addresses of
    the bus reach all parameters. -/
theorem make_serves {c : Component} {map : RegisterMap} {w w' : Workshop} {name : String}
    {e : RegisterEntry} {shape : Shape}
    (hbus : ∀ p ∈ busPorts, c.port? p.1 = some (.uint p.2.1, p.2.2))
    (hnames : (map.entries.map RegisterEntry.name).Nodup) (hcursor : map.cursor ≤ 2 ^ addressWidth)
    (he : e ∈ map.entries) (hnarrow : e.elem.bits ≤ busWidth)
    (hport : c.port? e.name = some (shape, .output)) (hplain : shape.isStream = false)
    (helem : e.elem = shape.elem) (hextents : e.extents = shape.extents)
    (hlacks : w.library.Lacks (.slaveInterface map.entries (doneInputs c)))
    (hmake : Returns (make c map) w name w') :
    ∃ m, w'.library.module? name = some m ∧ ∀ library Γ τ, m.Runs library Γ τ →
      ∀ flat < e.extents.prod, ∀ t, Serves ⟨e, flat⟩ τ t := by
  rcases make_built hlacks hmake with ⟨hvalid, m, hm, hports, hbody⟩
  rcases RegisterMap.addresses_of_validateFrom hvalid with ⟨haddresses, hrange, _⟩
  -- As the cursor stays in reach, no address is lost on the bus.
  have hroom : ∀ a ∈ RegisterMap.addresses map.entries, a < 2 ^ 32 := by
    intro a ha
    have hend := (hrange a ha).2
    rw [addressWidth] at hcursor
    omega
  have houtput : (e.name, e.extents.prod * e.elem.bits) ∈ m.signals := by
    have hshape : c.portShape e.name = .ok shape := by rw [Component.portShape, hport]
    rw [helem, hextents]
    exact Component.signal_of_modulePorts hports hshape hplain
  have hhas := hasBus_of_modulePorts hports hbus
  refine ⟨m, hm, fun library Γ τ h flat hflat t => ?_⟩
  have hslot : (⟨e, flat⟩ : Slot) ∈ slots map.entries := mem_slots.mpr ⟨he, hflat⟩
  exact {
    shown := (body_ok hbody).output_eq h t hroom hslot houtput
    next := (body_ok hbody).held_next hhas h t hnames haddresses hroom hslot hnarrow
    address := (body_ok hbody).waddr_next hhas h t }

end SlaveInterface

end StencilRtl
