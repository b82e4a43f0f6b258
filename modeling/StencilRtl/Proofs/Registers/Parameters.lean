import Mathlib.Data.UInt
import StencilRtl.Hardware.Datapath
import StencilRtl.Kernel.Builder
import StencilRtl.Proofs.Datapath.Access
import StencilRtl.Proofs.Netlist.Growth
import StencilRtl.Proofs.Registers.Slave
import StencilRtl.Proofs.Rtl.Traces

/-!
# Parameters from the Host to the Datapath

All parts of a design agree on where an element of a parameter is.

Five things number the elements of a parameter: the register map that tells the host
its addresses, the registers and the output of the slave interface, and accesses at
constant and at computed coordinates. None of them knows of the others. What they have in
common is `flatIndex`, so each of them is compared with it, and `LaidOut` puts the
comparisons together for a parameter of a design. That a stage reads the parameter with
the shape that the slave interface holds it with is known from the way the design grew.

Addresses have 32 bits on the bus. A map that does not end below that cannot be written
in full, so what is told of hardware is told of maps that do.

A name belongs to a stencil of the stage if the stage realizes one, and to the parameter
otherwise. An unsigned constant from `2 ^ 63` on is none that the check of coordinates
recognizes: `lower_farElement` is an access far outside of its box, which is accepted.

## Main definitions

* `StagePlan.Given`: A name in a stage is that of a parameter.
* `StagePlan.ReadsArray`, `StagePlan.ReadsScalar`: What accesses to a parameter become.
* `Netlist.Addressable`: All parameters have addresses on the bus.
* `Netlist.LaidOut`: Where a parameter is in a design.

## Theorems

* `StagePlan.stencil?_of_given`: A stage finds the parameter under its name.
* `Netlist.laidOut_of_ofKernel`: The parameters of a kernel are laid out.
* `lower_farElement`: A constant access outside of its box that is accepted.
-/

namespace StencilRtl

namespace StagePlan

/-- A stage is given a parameter and realizes no stencil of the same name. -/
structure Given (p : StagePlan) (name : String) : Prop where
  listed : ∃ shape, (name, shape) ∈ p.params
  visible : ∀ l ∈ p.stencils, l.name ≠ name

/-- Nothing hides a parameter in a stage that realizes no stencils. -/
theorem Given.of_names {p : StagePlan} {name : String} (hname : name ∈ p.params.map Prod.fst)
    (hnone : p.stencils = []) : p.Given name := by
  rcases List.mem_map.mp hname with ⟨⟨_, shape⟩, hlisted, rfl⟩
  refine ⟨⟨shape, hlisted⟩, ?_⟩
  rw [hnone]
  exact List.forall_mem_nil _

/-- A stage finds a parameter of some shape under its name. -/
theorem stencil?_of_given {p : StagePlan} {name : String} {shape : Shape} (h : p.Given name)
    (hshapes : ∀ q ∈ p.params, q.1 = name → q.2 = shape) (harray : shape.extents ≠ []) :
    p.scope.stencil? name = some shape := by
  -- Locals are looked at before parameters, but none has the name of one that is visible.
  have hlocals : (p.stencils.map fun l => (l.name, l.shape)).reverse.find?
      (fun entry => entry.1 = name) = none := by
    refine List.find?_eq_none.mpr fun entry hentry hname => ?_
    rcases List.mem_map.mp (List.mem_reverse.mp hentry) with ⟨l, hl, rfl⟩
    exact h.visible l hl (of_decide_eq_true hname)
  have hparams : ∃ entry, (p.params.filter fun q => q.2.extents ≠ []).reverse.find?
      (fun entry => entry.1 = name) = some entry ∧ entry.2 = shape := by
    rcases h.listed with ⟨shape', hlisted⟩
    -- The parameter that is found need not be the one that is listed here, but the shapes agree.
    have hshape : shape' = shape := hshapes _ hlisted rfl
    subst hshape
    have hmem : (name, shape') ∈ (p.params.filter fun q => q.2.extents ≠ []).reverse :=
      List.mem_reverse.mpr (List.mem_filter.mpr ⟨hlisted, decide_eq_true harray⟩)
    have hsome : ((p.params.filter fun q => q.2.extents ≠ []).reverse.find?
        fun entry => entry.1 = name).isSome = true :=
      List.find?_isSome.mpr ⟨_, hmem, decide_eq_true rfl⟩
    rcases Option.isSome_iff_exists.mp hsome with ⟨entry, hentry⟩
    have hfound := List.mem_filter.mp (List.mem_reverse.mp (List.mem_of_find?_eq_some hentry))
    have hname := List.find?_some hentry
    exact ⟨entry, hentry, hshapes entry hfound.1 (of_decide_eq_true hname)⟩
  rcases hparams with ⟨entry, hentry, rfl⟩
  rw [Scope.stencil?, scope, List.reverse_append, List.reverse_append, List.find?_append, hlocals,
    Option.none_or, List.find?_append, hentry, Option.some_or, Option.map_some]

/-- What accesses to an array parameter become in a stage. -/
structure ReadsArray (p : StagePlan) (name : String) (shape : Shape) : Prop where
  /-- At constant coordinates in the box an access becomes the bits of the element. -/
  fixed : ∀ index flat, Inside shape.extents index → flatIndex shape.extents index = .ok flat →
    ∀ (type : ScalarType) args (callType : CallType) r,
      (callType = .access || isStencilName name) = true →
      Constants args (index.map Nat.cast) →
        Returns (p.scope.lower (.call type name args callType)) r
          (type.read (.part (.ref (printName name)) (flat * shape.elem.bits) shape.elem.bits)) r
  /-- At others it becomes the field at a place computed from the coordinates. -/
  computed : ∀ (type : ScalarType) args (callType : CallType) r t x,
      (callType = .access || isStencilName name) = true →
    (∃ a ∈ args, a.constant? = none) → args.length = shape.rank →
      (Returns (p.scope.lower (.call type name args callType)) r x t ↔
        ∃ cs, Returns (p.scope.coordinates args) r cs t ∧
          x = type.read (.field (.ref (printName name)) (computedPlace (cs.zip shape.extents))
            shape.elem.bits))
  /-- The place is the number of the element if integers are added and multiplied. -/
  place : ∀ index flat, Inside shape.extents index → flatIndex shape.extents index = .ok flat →
    ∀ (I : Interpretation Int) (σ : Signals Int) cs, I.Exact →
      I.evalList σ cs = index.map Nat.cast →
        I.eval σ (computedPlace (cs.zip shape.extents)) = flat
  /-- Both take the element with its number out of the word. -/
  taken : ∀ flat < shape.extents.prod, ∀ Γ s (type : ScalarType),
    Γ.width (printName name) = shape.extents.prod * shape.elem.bits →
      (type.read (.part (.ref (printName name)) (flat * shape.elem.bits) shape.elem.bits)).own Γ s
          = digit shape.elem.bits (s.value (printName name)) flat ∧
        ∀ place : Rtl.Expr, flat * shape.elem.bits < 2 ^ 32 →
          place.value Γ s (max 32 (place.size Γ)) place.isSigned = flat →
            (type.read (.field (.ref (printName name)) place shape.elem.bits)).own Γ s
              = digit shape.elem.bits (s.value (printName name)) flat
  /-- Constant coordinates outside of the box are refused. -/
  outside : ∀ (type : ScalarType) args (callType : CallType) r index,
      (callType = .access || isStencilName name) = true →
    Constants args index → args.length = shape.rank →
      (∃ q ∈ index.zip shape.extents, Outside q) →
        ∃ d q, (index.zip shape.extents)[d]? = some q ∧ Outside q ∧
          (p.scope.lower (.call type name args callType)).run.run r
            = (unsupported (.indexOutOfBounds q.1 d name), r)
  /-- So are too few or too many coordinates. -/
  rank : ∀ (type : ScalarType) args (callType : CallType) r,
      (callType = .access || isStencilName name) = true →
    args.length ≠ shape.rank →
      (p.scope.lower (.call type name args callType)).run.run r
        = (unsupported (.coordinateCount name shape.rank args.length), r)

/-- A stage that finds a stencil under a name accesses its elements. -/
theorem readsArray_of_stencil? {p : StagePlan} {name : String} {shape : Shape}
    (h : p.scope.stencil? (printName name) = some shape)
    (hroom : shape.extents.prod * shape.elem.bits < Word.limit) : p.ReadsArray name shape where
  fixed := by
    intro index flat hinside hflat type args callType r haccess hargs
    refine Scope.lower_fixed haccess h hinside hargs hflat (Nat.lt_of_le_of_lt ?_ hroom)
    exact Nat.mul_le_mul_right _ (flatIndex_lt hinside hflat).le
  computed := by
    intro type args callType r t x haccess hargs hrank
    exact Scope.lower_computed haccess h hargs hrank
  place := by
    intro index flat hinside hflat I σ cs hI hcs
    rw [I.eval_computedPlace, hcs, hI.place_eq hinside hflat]
  taken := by
    intro flat hlt Γ s type hwidth
    -- Each element lies in the word as a whole.
    have hend : flat * shape.elem.bits + shape.elem.bits ≤ Γ.width (printName name) := by
      rw [hwidth, ← Nat.succ_mul]
      exact Nat.mul_le_mul_right _ hlt
    refine ⟨?_, fun place hfits hplace => ?_⟩
    · rw [Rtl.Expr.own_read, Rtl.Expr.own_part hend]
    · rw [Rtl.Expr.own_read, Rtl.Expr.own_field hplace hfits hend]
  outside := by
    intro type args callType r index haccess hargs hrank hout
    exact Scope.lower_outside haccess h hargs hrank hout
  rank := by
    intro type args callType r haccess hrank
    exact Scope.lower_rank haccess h hrank

/-- What accesses to a scalar parameter become in a stage. -/
structure ReadsScalar (p : StagePlan) (name : String) (bits : Nat) : Prop where
  /-- A variable becomes the word, unless its name stands for something else. -/
  whole : ∀ (type : ScalarType) r, r.value? (printName name) = none →
    printName name ∉ p.scope.counters →
      Returns (p.scope.lower (.var type name)) r (type.read (.ref (printName name))) r
  /-- The word is its only element. -/
  taken : ∀ Γ s (type : ScalarType), Γ.width (printName name) = bits →
    s.value (printName name) < 2 ^ bits →
      (type.read (.ref (printName name))).own Γ s = digit bits (s.value (printName name)) 0
  /-- An access with coordinates is refused. -/
  rank : (∀ w ∈ p.windows, w.1 ≠ printName name) → ∀ (type : ScalarType) args
    (callType : CallType) r, (callType = .access || isStencilName name) = true →
      (p.scope.lower (.call type name args callType)).run.run r
        = (undefinedName name "stencil", r)

/-- No stencil is found under the name of a scalar. -/
theorem stencil?_of_scalar {p : StagePlan} {name : String} {shape : Shape} (h : p.Given name)
    (hshapes : ∀ q ∈ p.params, q.1 = name → q.2 = shape) (hscalar : shape.extents = [])
    (hwindows : ∀ w ∈ p.windows, w.1 ≠ name) : p.scope.stencil? name = none := by
  rw [Scope.stencil?, Option.map_eq_none_iff]
  refine List.find?_eq_none.mpr fun entry hentry hname => ?_
  have hname' : entry.1 = name := of_decide_eq_true hname
  rw [scope, List.mem_reverse, List.mem_append, List.mem_append] at hentry
  rcases hentry with (hwindow | hparam) | hlocal
  · exact hwindows entry hwindow hname'
  · rcases List.mem_filter.mp hparam with ⟨hlisted, harray⟩
    have harray' : entry.2.extents ≠ [] := of_decide_eq_true harray
    rw [hshapes entry hlisted hname'] at harray'
    exact harray' hscalar
  · rcases List.mem_map.mp hlocal with ⟨l, hl, rfl⟩
    exact h.visible l hl hname'

/-- A stage reads a scalar it is given. -/
theorem readsScalar_of_given {p : StagePlan} {name : String} {shape : Shape}
    (h : p.Given (printName name)) (hshapes : ∀ q ∈ p.params, q.1 = printName name → q.2 = shape)
    (hscalar : shape.extents = []) : p.ReadsScalar name shape.elem.bits where
  whole := fun type r hfree hcounter => Scope.lower_var hfree hcounter
  taken := by
    intro Γ s type hwidth hsmall
    rw [Rtl.Expr.own_read, Rtl.Expr.own_ref, digit, Nat.pow_zero, Nat.div_one,
      Nat.mod_eq_of_lt hsmall]
  rank := by
    intro hwindows type args callType r haccess
    exact Scope.lower_undefined haccess (stencil?_of_scalar h hshapes hscalar hwindows)

end StagePlan

namespace Netlist

/-- All parameters have addresses on the bus. -/
def Addressable (n : Netlist) : Prop :=
  n.registers.cursor ≤ 2 ^ addressWidth

/-- A parameter has one layout in all parts of a design. -/
structure LaidOut (n : Netlist) (name : String) (shape : Shape) (e : RegisterEntry) : Prop where
  found : n.registers.find? (printName name) = some e
  elem : e.elem = shape.elem
  extents : e.extents = shape.extents
  words : e.words = .ok shape.extents.prod
  /-- Every element of the box has a number. -/
  numbered : ∀ index, Inside shape.extents index →
    ∃ flat < shape.extents.prod, flatIndex shape.extents index = .ok flat
  /-- Every number is that of one element. -/
  unique : ∀ flat < shape.extents.prod,
    ∃! index, Inside shape.extents index ∧ flatIndex shape.extents index = .ok flat
  /-- The register map lists an element at its number, with its address and its name. -/
  listed : ∀ index flat, Inside shape.extents index → flatIndex shape.extents index = .ok flat →
    e.elements[flat]? = some (e.offset + 4 * flat,
      printName name ++ RegisterEntry.subscript index.reverse)
  /-- The slave interface shows the register at that address where the element is. -/
  served : n.Addressable → ∃ slave c, n.slaveInterface = .ok slave ∧ n.component slave = .ok c ∧
    ∀ w w' made,
      w.library.Lacks (.slaveInterface n.registers.entries (SlaveInterface.doneInputs c)) →
      Returns (SlaveInterface.make c n.registers) w made w' →
        ∃ m, w'.library.module? made = some m ∧ ∀ library Γ τ, m.Runs library Γ τ →
          ∀ flat < shape.extents.prod, ∀ t, SlaveInterface.Serves ⟨e, flat⟩ τ t
  /-- The stages take the element from there. -/
  array : n.Addressable → shape.extents ≠ [] → ∀ plan ∈ n.stagePlans,
    plan.Given (printName name) → plan.ReadsArray name shape
  scalar : shape.extents = [] → ∀ plan ∈ n.stagePlans,
    plan.Given (printName name) → plan.ReadsScalar name shape.elem.bits

/-- The parameters of a kernel are laid out in its design. -/
theorem laidOut_of_ofKernel {k : Kernel} {n : Netlist} (h : ofKernel k = .ok n) {arg : Argument}
    (harg : arg ∈ k.args) (hparameter : arg.isStream = false) :
    ∃ shape e, Shape.ofStencilType arg.stencilType = .ok shape ∧ n.LaidOut arg.name shape e := by
  rcases holds_of_ofKernel h with ⟨slave, c, hslave, hc, hbus, hdistinct, hknown, hheld⟩
  rcases hheld arg harg hparameter with ⟨shape, e, hshape, hholds⟩
  rcases hholds.past with ⟨past, hpast, hcursor⟩
  rcases RegisterEntry.past_ok hpast with ⟨hwords, hend, hlimit⟩
  have hextents := hholds.extents
  have hentry : e ∈ n.registers.entries := List.mem_of_find?_eq_some hholds.entry
  have hname : e.name = printName arg.name := by
    have hfound := List.find?_some hholds.entry
    exact of_decide_eq_true hfound
  rw [hextents] at hwords hend
  have hroom : shape.extents.prod < Word.limit := by omega
  have hshapes : ∀ plan ∈ n.stagePlans, ∀ q ∈ plan.params, q.1 = printName arg.name →
      q.2 = shape := by
    intro plan hplan q hq hq'
    have hwire := hknown plan hplan q hq
    rw [hq', hholds.wire, Option.some.injEq] at hwire
    exact hwire.symm
  refine ⟨shape, e, hshape, hholds.entry, hholds.elem, hextents, hwords, ?_, ?_, ?_, ?_, ?_, ?_⟩
  · intro index hinside
    rcases flatIndex_of_inside hinside hroom with ⟨flat, hflat⟩
    exact ⟨flat, flatIndex_lt hinside hflat, hflat⟩
  · intro flat hflat
    rcases exists_flatIndex hroom hflat with ⟨index, hinside, hindex⟩
    exact ⟨index, ⟨hinside, hindex⟩, fun index' h' => flatIndex_injective h'.1 hinside h'.2 hindex⟩
  · intro index flat hinside hflat
    rw [← hextents] at hinside hflat
    rw [RegisterEntry.elements_flatIndex hinside hflat, hname]
  · intro haddressable
    rcases hholds.port with ⟨c', hc', hport⟩
    rw [hc, Except.ok.injEq] at hc'
    subst hc'
    rw [← hname] at hport
    refine ⟨slave, c, hslave, hc, fun w w' made hlacks hmake => ?_⟩
    rw [← hextents]
    exact SlaveInterface.make_serves hbus hdistinct haddressable hentry hholds.narrow hport
      hholds.plain hholds.elem hextents hlacks hmake
  · intro haddressable harray plan hplan hgiven
    refine StagePlan.readsArray_of_stencil? ?_ ?_
    · exact StagePlan.stencil?_of_given hgiven (hshapes plan hplan) harray
    · -- Registers have no more bits than the bus, and there are at most as many as addresses.
      have hnarrow := hholds.narrow
      rw [hholds.elem, busWidth] at hnarrow
      have hbits := Nat.mul_le_mul_left shape.extents.prod hnarrow
      rw [Addressable, addressWidth] at haddressable
      have hlarge : 32 * 2 ^ 32 < Word.limit := by decide
      omega
  · intro hscalar plan hplan hgiven
    exact StagePlan.readsScalar_of_given hgiven (hshapes plan hplan) hscalar

/-- Adds two elements of a box of two by three to every element of a row, one of them
    chosen by the loop. -/
def weighted : Kernel :=
  ⟨"weighted", [.stream "in.stencil.stream" (.uint 8) [1] [2] false,
    .stream "out.stencil.stream" (.uint 8) [1] [2] true,
    .stencil "w.stencil" (.uint 8) [2, 3]],
    .forLoop "x" 0 2 (.realizeOver "out.stencil" (.uint 8) [1] (.block [
      .readStream "in.stencil.stream" "in.stencil" none,
      .provideOne "out.stencil"
        (.binary .add (.stencil "in.stencil" (.uint 8) [.ofInt 0])
          (.binary .add (.stencil "w.stencil" (.uint 8) [.index "x", .ofInt 2])
            (.stencil "w.stencil" (.uint 8) [.ofInt 1, .ofInt 0]))) [.ofInt 0],
      .writeStream "out.stencil.stream" "out.stencil" []]))⟩

/-- Its slave interface. -/
def weightedSlave : Component :=
  (((ofKernel weighted).bind fun n => n.slaveInterface.bind n.component).toOption).getD default

/-- Its register map. -/
def weightedRegisters : RegisterMap := ⟨[⟨"w_stencil", 0x40, .uint 8, [2, 3]⟩], 0x58⟩

/-- The module of its slave interface. -/
def weightedWorkshop : Workshop :=
  ((SlaveInterface.make weightedSlave weightedRegisters).run.run .empty).2

/-- The host writes a byte to one of its elements. -/
def weightedTrace : Rtl.Trace where
  last := 4
  signals :=
    [("reset", [1]), ("AWVALID", [0, 1]), ("AWREADY", [1, 1, 0, 0, 1]), ("AWADDR", [0, 0x54]),
     ("WVALID", [0, 0, 1]), ("WREADY", [0, 0, 1]), ("WDATA", [0, 0, 0xab]), ("WSTRB", [0, 0, 1]),
     ("BVALID", [0, 0, 0, 1]), ("BREADY", [0, 0, 0, 1]), ("ARREADY", [1, 1, 1, 1, 1]),
     ("wr_state", [0, 0, 1, 2]), ("wr_next", [0, 1, 2]), ("waddr", [0, 0, 0x54, 0x54, 0x54]),
     ("wr_en", [0, 0, 1]), ("w_stencil", [0, 0, 0, 0xab * 2 ^ 40, 0xab * 2 ^ 40])]
  cells := [("mem_w_stencil", [[], [], [], [0, 0, 0, 0, 0, 0xab], [0, 0, 0, 0, 0, 0xab]])]

/-- The byte that is written to the address of an element is where the element is. -/
theorem laidOut_of_ofKernel_weighted :
    ∃ n shape e, ofKernel weighted = .ok n ∧ n.Addressable ∧
      Argument.stencil "w.stencil" (.uint 8) [2, 3] ∈ weighted.args ∧
      (∃ plan ∈ n.stagePlans, plan.Given "w_stencil") ∧ n.LaidOut "w.stencil" shape e ∧
      flatIndex shape.extents [1, 2] = .ok 5 ∧ e.elements[5]? = some (0x54, "w_stencil[2][1]") ∧
      (∀ t, SlaveInterface.Serves ⟨e, 5⟩ weightedTrace.state t) ∧
      SlaveInterface.Written (weightedTrace.state 2) 0x54 ∧
      digit 8 ((weightedTrace.state 3).value "w_stencil") 5 = 0xab := by
  have hmem : Argument.stencil "w.stencil" (.uint 8) [2, 3] ∈ weighted.args := by decide
  have haccepted : (ofKernel weighted).map (fun n => (n.registers,
      n.stagePlans.map fun plan => (plan.params.map Prod.fst, plan.stencils)))
      = .ok (weightedRegisters, [(["w_stencil"], [])]) := by
    decide +kernel
  rcases Fallible.exists_of_map haccepted with ⟨n, hn, hboth⟩
  rw [Prod.mk.injEq] at hboth
  rcases hboth with ⟨hregisters, hplans⟩
  rcases List.map_eq_singleton_iff.mp hplans with ⟨plan, hplan, hnames⟩
  rw [Prod.mk.injEq] at hnames
  have hgiven : plan.Given "w_stencil" :=
    .of_names (by rw [hnames.1]; exact List.mem_singleton_self _) hnames.2
  have haddressable : n.Addressable := by
    rw [Addressable, hregisters]
    decide
  rcases laidOut_of_ofKernel hn hmem rfl with ⟨shape, e, hshape, hlaid⟩
  have hwindow : Shape.ofStencilType (Argument.stencil "w.stencil" (.uint 8) [2, 3]).stencilType
      = .ok ⟨.stencil, .uint 8, [2, 3], [2, 3], 1⟩ := by decide +kernel
  have hextents : shape.extents = [2, 3] := by
    rw [hwindow, Except.ok.injEq] at hshape
    rw [← hshape]
  have hflat : flatIndex shape.extents [1, 2] = .ok 5 := by
    rw [hextents]
    decide +kernel
  have hinside : Inside shape.extents [1, 2] := by
    rw [hextents]
    exact .cons (by decide) (.cons (by decide) .nil)
  have hserves : ∀ t, SlaveInterface.Serves ⟨e, 5⟩ weightedTrace.state t := by
    rcases hlaid.served haddressable with ⟨slave, c, hslave, hc, hmade⟩
    -- The slave interface of the design is the component the trace was recorded for.
    have hsame : weightedSlave = c := by
      rw [weightedSlave, hn]
      change ((n.slaveInterface.bind n.component).toOption).getD default = c
      rw [hslave]
      change ((n.component slave).toOption).getD default = c
      rw [hc]
      rfl
    subst hsame
    rw [hregisters] at hmade
    have hreturns : Returns (SlaveInterface.make weightedSlave weightedRegisters) .empty "SlaveIf"
        weightedWorkshop := by
      refine returns_of_run (m := SlaveInterface.make weightedSlave weightedRegisters) ?_
      decide +kernel
    rcases hmade .empty weightedWorkshop "SlaveIf" (fun d hd => absurd hd List.not_mem_nil)
      hreturns with ⟨m, hm, hruns⟩
    have hmodule : weightedWorkshop.library.moduleD "SlaveIf" = m :=
      Option.some.inj ((Library.module?_eq_moduleD (by decide +kernel)).symm.trans hm)
    have hfollows : (weightedWorkshop.library.moduleD "SlaveIf").Follows weightedTrace := by
      decide +kernel
    refine hruns (fun _ => none) m.typing weightedTrace.state ?_ 5 ?_
    · rw [← hmodule]
      exact hfollows.runs (by decide +kernel)
    · rw [hextents]
      decide
  -- The entry that was found is the one the map has under the name.
  have hentry : weightedRegisters.find? (printName "w.stencil")
      = some ⟨"w_stencil", 0x40, .uint 8, [2, 3]⟩ := by decide +kernel
  have hfound : n.registers.find? (printName "w.stencil") = some e := hlaid.found
  rw [hregisters, hentry, Option.some.injEq] at hfound
  subst hfound
  refine ⟨n, shape, _, hn, haddressable, hmem, ⟨plan, ?_, hgiven⟩, hlaid, hflat,
    by decide +kernel, hserves, by decide +kernel, by decide +kernel⟩
  rw [hplan]
  exact List.mem_singleton_self plan

end Netlist

/-- Adds an element of a box of two to every element of a row, the one whose coordinate is
    `2 ^ 63`. -/
def farElement : Kernel :=
  ⟨"far", [.stream "in.stencil.stream" (.uint 8) [1] [2] false,
    .stream "out.stencil.stream" (.uint 8) [1] [2] true,
    .stencil "w.stencil" (.uint 8) [2]],
    .forLoop "x" 0 2 (.realizeOver "out.stencil" (.uint 8) [1] (.block [
      .readStream "in.stencil.stream" "in.stencil" none,
      .provideOne "out.stencil"
        (.binary .add (.stencil "in.stencil" (.uint 8) [.ofInt 0])
          (.stencil "w.stencil" (.uint 8) [.ofWord 64 (2 ^ 63)])) [.ofInt 0],
      .writeStream "out.stencil.stream" "out.stencil" []]))⟩

/-- A constant access outside of the box is accepted, in a kernel that is, and takes bits
    far beyond the word of the parameter. -/
theorem lower_farElement :
    ∃ n plan shape, Netlist.ofKernel farElement = .ok n ∧ n.stagePlans = [plan] ∧
      plan.Given "w_stencil" ∧
      plan.actions = [.provide "out_stencil" [.ofInt 0]
        (.binary .add (.stencil "in.stencil" (.uint 8) [.ofInt 0])
          (.stencil "w.stencil" (.uint 8) [.ofWord 64 (2 ^ 63)]))] ∧
      plan.scope.stencil? "w_stencil" = some shape ∧ shape.extents = [2] ∧
      Outside (2 ^ 63, 2) ∧
      Returns (plan.scope.lower (.stencil "w.stencil" (.uint 8) [.ofWord 64 (2 ^ 63)])) .initial
        (.field (.ref "w_stencil") (.literal 64 (2 ^ 63)) 8) .initial := by
  have haccepted : (Netlist.ofKernel farElement).map (fun n => n.stagePlans.map fun plan =>
      (plan.params.map Prod.fst, plan.stencils)) = .ok [(["w_stencil"], [])] := by
    decide +kernel
  rcases Fallible.exists_of_map haccepted with ⟨n, hn, hnames⟩
  have hbody : (Netlist.ofKernel farElement).map (fun n => n.stagePlans.map fun plan =>
      (plan.actions, plan.scope.stencil? "w_stencil"))
      = .ok [([.provide "out_stencil" [.ofInt 0]
          (.binary .add (.stencil "in.stencil" (.uint 8) [.ofInt 0])
            (.stencil "w.stencil" (.uint 8) [.ofWord 64 (2 ^ 63)]))],
        some ⟨.stencil, .uint 8, [2], [2], 1⟩)] := by
    decide +kernel
  rw [hn] at hbody
  rcases List.map_eq_singleton_iff.mp (Except.ok.inj hbody) with ⟨plan, hplan, hparts⟩
  rw [hplan, List.map_singleton, List.singleton_inj, Prod.mk.injEq] at hnames
  rw [Prod.mk.injEq] at hparts
  refine ⟨n, plan, _, hn, hplan, ?_, hparts.1, hparts.2, rfl, .inr (by decide), ?_⟩
  · exact .of_names (by rw [hnames.1]; exact List.mem_singleton_self _) hnames.2
  -- The index is no constant to the lowering, so it is not checked against the box.
  · have haccess : (CallType.access = .access || isStencilName "w.stencil") = true := rfl
    have hconstant : (Expr.ofWord 64 (2 ^ 63)).constant? = none := by decide +kernel
    refine (Scope.lower_computed haccess hparts.2 ⟨_, List.mem_singleton_self _, hconstant⟩
      rfl).mpr ⟨[.literal 64 (2 ^ 63)], ?_, rfl⟩
    unfold Scope.coordinates
    simp only [hconstant]
    refine returns_bind.mpr ⟨.literal 64 (2 ^ 63), _, ?_, returns_pure.mpr ⟨rfl, rfl⟩⟩
    refine returns_pure.mpr ⟨congrArg (Rtl.Expr.literal 64) ?_, rfl⟩
    decide +kernel

end StencilRtl
