import Mathlib.Data.List.Forall2
import StencilRtl.Proofs.Rtl.Body
import StencilRtl.Proofs.Rtl.Semantics

/-!
# The Usual Logic

What the items that modules are mostly made of do in a run.

A signal that is assigned has the value it is assigned. A register has in the next
cycle the value of the first of its guards that holds, or else the one it had. Most
of the rest is logic on single bits, which is carried as a proposition: `IsBit` says
that an expression is one bit and when that bit is set.

## Main definitions

* `Expr.IsBit`: An expression is a bit that tells whether something holds.
* `State.firstHolding`: What a register with guarded updates becomes.

## Theorems

* `Module.Runs.instance_value`: A port of an instance.
* `Module.Runs.assigned`: An assigned signal.
* `Module.Runs.bit_iff`: An assigned bit.
* `Module.Runs.register_next`, `Module.Runs.enabled_next`: A register.
* `Module.Runs.stored_next`: A memory.
-/

namespace StencilRtl

namespace Rtl

variable {Γ : Typing} {s : State}

namespace Expr

/-- An expression is one bit without a sign, and it is set just if something
    holds. -/
structure IsBit (Γ : Typing) (s : State) (e : Expr) (P : Prop) : Prop where
  size : e.size Γ = 1
  unsigned : e.isSigned = false
  small : e.value Γ s 1 false < 2
  iff : e.value Γ s 1 false = 1 ↔ P

theorem extend_false (width context v : Nat) : extend false width context v = v := by
  rw [extend, Bool.false_and, if_neg Bool.false_ne_true]

attribute [local simp] Expr.size isSigned value extend_false in
theorem isBit_ref {name : String} (hwidth : Γ.width name = 1) (hsmall : s.value name < 2) :
    (Expr.ref name).IsBit Γ s (s.value name = 1) := by
  refine ⟨?_, ?_, ?_, ?_⟩
  · simp [hwidth]
  · simp
  · simpa using hsmall
  · simp

/-- The conjunction of two bits. -/
theorem bit_and {x y : Nat} (hx : x < 2) (hy : y < 2) : x &&& y = 1 ↔ x = 1 ∧ y = 1 := by
  rcases (by omega : x = 0 ∨ x = 1) with rfl | rfl
  · rw [Nat.zero_and]
    omega
  · rcases (by omega : y = 0 ∨ y = 1) with rfl | rfl <;> decide

/-- The disjunction of two bits. -/
theorem bit_or {x y : Nat} (hx : x < 2) (hy : y < 2) :
    x ||| y < 2 ∧ (x ||| y = 1 ↔ x = 1 ∨ y = 1) := by
  rcases (by omega : x = 0 ∨ x = 1) with rfl | rfl
  · rw [Nat.zero_or]
    omega
  · rcases (by omega : y = 0 ∨ y = 1) with rfl | rfl <;> decide

namespace IsBit

variable {a b : Expr} {P Q : Prop}

theorem own_eq (h : a.IsBit Γ s P) : a.own Γ s = a.value Γ s 1 false := by
  rw [own, h.size, h.unsigned]

theorem own_ne_zero (h : a.IsBit Γ s P) : a.own Γ s ≠ 0 ↔ P := by
  have hsmall := h.small
  rw [← h.iff, h.own_eq]
  omega

theorem assigned_eq (h : a.IsBit Γ s P) : a.assigned Γ s 1 = a.value Γ s 1 false := by
  rw [assigned, h.size, h.unsigned, Nat.max_self, Nat.pow_one, Nat.mod_eq_of_lt h.small]

theorem congr (h : a.IsBit Γ s P) (hPQ : P ↔ Q) : a.IsBit Γ s Q :=
  ⟨h.size, h.unsigned, h.small, h.iff.trans hPQ⟩

protected theorem not (h : a.IsBit Γ s P) : (Expr.not a).IsBit Γ s ¬P := by
  have hsmall := h.small
  refine ⟨?_, ?_, ?_, ?_⟩
  · rw [Expr.size, h.size]
  · rw [isSigned, h.unsigned]
  · rw [value]
    omega
  · rw [value, ← h.iff]
    omega

protected theorem and (h : a.IsBit Γ s P) (h' : b.IsBit Γ s Q) :
    (Expr.and a b).IsBit Γ s (P ∧ Q) := by
  have hsmall := h.small
  have hsmall' := h'.small
  have hvalue : (Expr.and a b).value Γ s 1 false = a.value Γ s 1 false &&& b.value Γ s 1 false := by
    simp only [Expr.and, value, conjunction]
  refine ⟨?_, ?_, ?_, ?_⟩
  · rw [Expr.and, Expr.size, largest, largest, largest, h.size, h'.size]
    rfl
  · rw [Expr.and, isSigned, allSigned, h.unsigned, Bool.false_and, Bool.false_and]
  · rw [hvalue]
    exact Nat.lt_of_le_of_lt Nat.and_le_left hsmall
  · rw [hvalue, ← h.iff, ← h'.iff]
    exact bit_and hsmall hsmall'

protected theorem or (h : a.IsBit Γ s P) (h' : b.IsBit Γ s Q) :
    (Expr.or a b).IsBit Γ s (P ∨ Q) := by
  have hvalue : (Expr.or a b).value Γ s 1 false = a.value Γ s 1 false ||| b.value Γ s 1 false := by
    rw [Expr.or, value, disjunction, disjunction, disjunction, Nat.or_zero]
  have hboth := bit_or h.small h'.small
  refine ⟨?_, ?_, ?_, ?_⟩
  · rw [Expr.or, Expr.size, largest, largest, largest, h.size, h'.size]
    rfl
  · rw [Expr.or, isSigned, allSigned, h.unsigned, Bool.false_and, Bool.false_and]
  · rw [hvalue]
    exact hboth.1
  · rw [hvalue, ← h.iff, ← h'.iff]
    exact hboth.2

end IsBit

/-- A constant bit. -/
theorem isBit_bit (b : Bool) : (Expr.bit b).IsBit Γ s (b = true) := by
  have hvalue : (Expr.bit b).value Γ s 1 false = if b then 1 else 0 := by
    rw [bit, value, extend_false]
    cases b <;> rfl
  refine ⟨rfl, rfl, ?_, ?_⟩
  · rw [hvalue]
    cases b <;> decide
  · rw [hvalue]
    cases b <;> decide

/-- A comparison of a signal with a constant, of which only the low bits are written. -/
theorem isBit_compared {operator : Operator} (hrule : operator.rule = .compared) {name : String}
    {width k : Nat} {P : Prop} [Decidable P]
    (h : ∀ w, operator.compute s.unknown w false (s.value name) (k % 2 ^ width) = bitOf P) :
    (Expr.binary operator (.ref name) (.literal width k)).IsBit Γ s P := by
  have hvalue : (Expr.binary operator (.ref name) (.literal width k)).value Γ s 1 false
      = bitOf P := by
    rw [value]
    simp only [hrule, isSigned, Bool.and_self, value, extend_false, h]
  refine ⟨?_, ?_, ?_, ?_⟩
  · rw [Expr.size]
    simp only [hrule]
  · rw [isSigned]
    simp only [hrule]
  · rw [hvalue, bitOf]
    split <;> omega
  · rw [hvalue, bitOf]
    split <;> simp_all

theorem isBit_atLeast {name : String} {width k : Nat} :
    (Expr.binary .ge (.ref name) (.literal width k)).IsBit Γ s (k % 2 ^ width ≤ s.value name) :=
  isBit_compared rfl fun _ => by rw [Operator.compute, if_neg Bool.false_ne_true]

theorem isBit_atMost {name : String} {width k : Nat} :
    (Expr.binary .le (.ref name) (.literal width k)).IsBit Γ s (s.value name ≤ k % 2 ^ width) :=
  isBit_compared rfl fun _ => by rw [Operator.compute, if_neg Bool.false_ne_true]

/-- A signal is compared with a constant of its own size. -/
theorem isBit_hasValue {name : String} {width k : Nat} (hk : k < 2 ^ width) :
    (Expr.hasValue name width k).IsBit Γ s (s.value name = k) :=
  isBit_compared rfl fun _ => by rw [Operator.compute, Nat.mod_eq_of_lt hk]

theorem isBit_ge {name : String} {width k : Nat} (hk : k < 2 ^ width) :
    (Expr.binary .ge (.ref name) (.literal width k)).IsBit Γ s (k ≤ s.value name) :=
  isBit_atLeast.congr (by rw [Nat.mod_eq_of_lt hk])

theorem largest_le {n : Nat} {terms : List Expr} (h : ∀ e ∈ terms, e.size Γ ≤ n) :
    largest Γ terms ≤ n := by
  induction terms with
  | nil => exact Nat.zero_le n
  | cons e rest ih =>
      rw [largest]
      exact Nat.max_le.mpr
        ⟨h e (List.mem_cons_self ..), ih fun e' he => h e' (List.mem_cons_of_mem _ he)⟩

theorem size_le_one {terms : List Expr} {Ps : List Prop}
    (h : List.Forall₂ (fun e P => e.IsBit Γ s P) terms Ps) : ∀ e ∈ terms, e.size Γ ≤ 1 := by
  intro e he
  rcases exists_of_forall₂ h he with ⟨P, _, hbit⟩
  exact Nat.le_of_eq hbit.size

/-- The bitwise conjunction of bits is a bit again. -/
theorem conjunction_eq_one_iff {terms : List Expr} {Ps : List Prop}
    (h : List.Forall₂ (fun e P => e.IsBit Γ s P) terms Ps) :
    conjunction Γ s 1 false terms < 2 ∧ (conjunction Γ s 1 false terms = 1 ↔ ∀ P ∈ Ps, P) := by
  induction h with
  | nil =>
      refine ⟨by rw [conjunction]; omega, ?_⟩
      rw [conjunction]
      exact iff_of_true rfl fun P hP => absurd hP List.not_mem_nil
  | @cons e P rest Qs he hrest ih =>
      rw [List.forall_mem_cons]
      -- The last term stands alone, without an operator behind it.
      cases rest with
      | nil =>
          cases hrest
          rw [conjunction]
          exact ⟨he.small, he.iff.trans (by simp)⟩
      | cons e' more =>
          have hmore : conjunction Γ s 1 false (e :: e' :: more)
              = e.value Γ s 1 false &&& conjunction Γ s 1 false (e' :: more) := by
            rw [conjunction]
            exact List.cons_ne_nil _ _
          rw [hmore, ← he.iff, ← ih.2]
          exact ⟨Nat.lt_of_le_of_lt Nat.and_le_left he.small, bit_and he.small ih.1⟩

/-- The conjunction of any number of bits. -/
theorem isBit_all {terms : List Expr} {Ps : List Prop}
    (h : List.Forall₂ (fun e P => e.IsBit Γ s P) terms Ps) :
    (Expr.all terms).IsBit Γ s (∀ P ∈ Ps, P) := by
  have hconjunction := conjunction_eq_one_iff h
  refine ⟨?_, ?_, ?_, ?_⟩
  · rw [Expr.size, Nat.max_eq_left (largest_le (size_le_one h))]
  · cases h with
    | nil => rfl
    | cons he _ => rw [isSigned, allSigned, he.unsigned, Bool.false_and, Bool.false_and]
  · rw [value]
    exact hconjunction.1
  · rw [value]
    exact hconjunction.2

theorem own_ref (name : String) : (Expr.ref name).own Γ s = s.value name := by
  rw [own, isSigned, value, extend_false]

/-- A cell of a memory, put into a target of its size. -/
theorem assigned_element {memory index : String} {width : Nat}
    (hwidth : Γ.cellWidth memory = width) :
    (Expr.element memory (.ref index)).assigned Γ s width
      = s.cell memory (s.value index) % 2 ^ width := by
  have hindex := own_ref (Γ := Γ) (s := s) index
  rw [own] at hindex
  rw [assigned, isSigned, value, hindex, hwidth, Nat.mod_mod]

/-- A signal put into a target of at least its size is itself. -/
theorem assigned_ref {name : String} {width : Nat} (h : s.value name < 2 ^ width) :
    (Expr.ref name).assigned Γ s width = s.value name := by
  rw [assigned, isSigned, value, extend_false, Nat.mod_eq_of_lt h]

end Expr

/-- What a register with guarded updates becomes: the value of the first guard that
    holds, or else what it is. -/
def State.firstHolding (Γ : Typing) (s : State) (register : String) : List (Expr × Expr) → Nat
  | [] => s.value register
  | (guard, value) :: rest =>
      if guard.own Γ s ≠ 0 then value.assigned Γ s (Γ.width register)
      else firstHolding Γ s register rest

/-- The process of a register with guarded updates. -/
theorem Stmt.executeFirst_updates (s : State) (register : String) (updates : List (Expr × Expr)) :
    (Stmt.executeFirst Γ ⟨s, s⟩ ⟨s, s⟩
      (updates.map fun (guard, value) => (guard, [.update (.ref register) value]))).after.value
        register = s.firstHolding Γ register updates := by
  induction updates with
  | nil => rfl
  | cons u rest ih =>
      rcases u with ⟨guard, value⟩
      rw [List.map_cons, Stmt.executeFirst, State.firstHolding]
      split
      · simp only [Stmt.executeAll, Stmt.execute, State.put, State.setValue, Function.update_self]
      · exact ih

namespace Module

variable {m : Module} {name : String} {width : Nat}

theorem signals_of_wire (h : .wire name width ∈ m.body) : (name, width) ∈ m.signals :=
  List.mem_append_right _ (List.mem_filterMap.mpr ⟨_, h, rfl⟩)

theorem signals_of_reg (h : .reg name width ∈ m.body) : (name, width) ∈ m.signals :=
  List.mem_append_right _ (List.mem_filterMap.mpr ⟨_, h, rfl⟩)

theorem memories_of_memory {depth : Nat} (h : .memory name width depth ∈ m.body) :
    (name, width, depth) ∈ m.memories :=
  List.mem_filterMap.mpr ⟨_, h, rfl⟩

theorem signals_of_port {p : Port} (h : p ∈ m.ports) : (p.name, p.width) ∈ m.signals :=
  List.mem_append_left _ (List.mem_map.mpr ⟨p, h, rfl⟩)

end Module

namespace Module.Runs

variable {library : String → Option Module} {m : Module} {τ : Nat → State}

theorem typed (h : m.Runs library Γ τ) : ∀ t, m.Typed Γ (τ t) := by
  cases h with
  | intro _ _ _ typed _ _ _ _ => exact typed

theorem holds (h : m.Runs library Γ τ) :
    ∀ t, ∀ item ∈ m.body, item.Holds Γ (τ t) (τ (t + 1)) := by
  cases h with
  | intro _ _ _ _ holds _ _ _ => exact holds

/-- An instance is a run of its own. -/
theorem submodule (h : m.Runs library Γ τ) {name instanceName : String}
    {connections : List (String × Expr)}
    (hitem : .submodule name instanceName connections ∈ m.body) :
    ∃ inner Γ' τ', library name = some inner ∧ inner.Runs library Γ' τ' ∧
      ∀ t, ∀ p ∈ inner.ports, ∀ e, (p.name, e) ∈ connections → p.Joined Γ (τ t) (τ' t) e := by
  cases h with
  | intro inner typing run _ _ defined runs joined =>
      exact ⟨inner instanceName, typing instanceName, run instanceName,
        defined _ _ _ hitem, runs _ _ _ hitem, joined _ _ _ hitem⟩

theorem width_eq (h : m.Runs library Γ τ) {name : String} {width : Nat}
    (hdeclared : (name, width) ∈ m.signals) : Γ.width name = width :=
  ((h.typed 0).signal _ hdeclared).1

theorem value_lt (h : m.Runs library Γ τ) {name : String} {width : Nat}
    (hdeclared : (name, width) ∈ m.signals) (t : Nat) : (τ t).value name < 2 ^ width :=
  ((h.typed t).signal _ hdeclared).2

theorem memory_eq (h : m.Runs library Γ τ) {name : String} {width depth : Nat}
    (hdeclared : (name, width, depth) ∈ m.memories) :
    Γ.cellWidth name = width ∧ Γ.depth name = depth :=
  ⟨((h.typed 0).memory _ hdeclared).1, ((h.typed 0).memory _ hdeclared).2.1⟩

/-- A signal of one bit is a bit. -/
theorem isBit (h : m.Runs library Γ τ) {name : String} (hdeclared : (name, 1) ∈ m.signals)
    (t : Nat) : (Expr.ref name).IsBit Γ (τ t) ((τ t).value name = 1) :=
  Expr.isBit_ref (h.width_eq hdeclared) (h.value_lt hdeclared t)

/-- A port of an instance and the signal of the same size it is connected to have one
    value. -/
theorem instance_value (h : m.Runs library Γ τ) {name instanceName : String}
    {connections : List (String × Expr)}
    (hitem : .submodule name instanceName connections ∈ m.body) :
    ∃ inner Γ' τ', library name = some inner ∧ inner.Runs library Γ' τ' ∧
      ∀ p ∈ inner.ports, ∀ signal, (p.name, .ref signal) ∈ connections →
        (signal, p.width) ∈ m.signals → ∀ t, (τ t).value signal = (τ' t).value p.name := by
  rcases h.submodule hitem with ⟨inner, Γ', τ', hlibrary, hruns, hjoined⟩
  refine ⟨inner, Γ', τ', hlibrary, hruns, fun p hp signal hsignal hdeclared t => ?_⟩
  have houter := h.value_lt hdeclared t
  have hinner := hruns.value_lt (signals_of_port hp) t
  have hport := hjoined t p hp _ hsignal
  rw [Port.Joined] at hport
  -- Values are cut to the width they are assigned to, which both sides already fit.
  cases hdirection : p.direction with
  | input =>
      rw [hdirection] at hport
      exact (hport.trans (Expr.assigned_ref houter)).symm
  | output =>
      rw [hdirection] at hport
      rw [hport signal rfl, h.width_eq hdeclared, Nat.mod_eq_of_lt hinner]

/-- An assigned signal has the value it is assigned. -/
theorem assigned (h : m.Runs library Γ τ) {name : String} {e : Expr}
    (hitem : .assign (.ref name) e ∈ m.body) (t : Nat) :
    (τ t).value name = e.assigned Γ (τ t) (Γ.width name) := by
  have hsame := (h.holds t _ hitem name rfl).1
  rw [hsame, State.put, State.setValue]
  simp only [Function.update_self]

/-- An assigned bit is set just if what it is assigned holds. -/
theorem bit_iff (h : m.Runs library Γ τ) {name : String} {e : Expr} {P : Prop} {t : Nat}
    (hdeclared : (name, 1) ∈ m.signals) (hitem : .assign (.ref name) e ∈ m.body)
    (he : e.IsBit Γ (τ t) P) : (τ t).value name = 1 ↔ P := by
  rw [h.assigned hitem, h.width_eq hdeclared, he.assigned_eq, he.iff]

/-- A register with guarded updates. -/
theorem register_next (h : m.Runs library Γ τ) {register : String} {initial : Expr}
    {updates : List (Expr × Expr)} {items : List Item}
    (hbody : Body.register register initial updates = .ok items) (hsub : ∀ i ∈ items, i ∈ m.body)
    (t : Nat) :
    (τ (t + 1)).value register
      = (τ t).firstHolding Γ register ((.ref reset, initial) :: updates) := by
  rcases Except.ok.inj hbody with ⟨⟩
  have hitem := hsub _ (List.mem_singleton_self _)
  have htarget : register ∈ Stmt.targetsOfAll
      [.choose ((.ref reset, [.update (.ref register) initial])
        :: updates.map fun (guard, value) => (guard, [.update (.ref register) value])) none] := by
    simp [Stmt.targetsOfAll, Stmt.targets, Stmt.targetsOfBranches, Expr.target?]
  have hsame := (h.holds t _ hitem register htarget).1
  rw [hsame, ← Stmt.executeFirst_updates, List.map_cons]
  simp only [Stmt.executeAll, Stmt.execute, Stmt.executeElse]

/-- A register updated when it is enabled. -/
theorem enabled_next (h : m.Runs library Γ τ) {register : String} {enable value : Expr}
    {items : List Item} (hbody : Body.enabled (.ref register) enable value = .ok items)
    (hsub : ∀ i ∈ items, i ∈ m.body) (t : Nat) :
    (τ (t + 1)).value register = (τ t).firstHolding Γ register [(enable, value)] := by
  rcases Except.ok.inj hbody with ⟨⟩
  have hitem := hsub _ (List.mem_singleton_self _)
  have htarget : register ∈ Stmt.targetsOfAll
      [.when enable [.update (.ref register) value]] := by
    simp [Stmt.when, Stmt.targetsOfAll, Stmt.targets, Stmt.targetsOfBranches, Expr.target?]
  have hsame := (h.holds t _ hitem register htarget).1
  rw [hsame, ← Stmt.executeFirst_updates, List.map_cons, List.map_nil]
  simp only [Stmt.when, Stmt.executeAll, Stmt.execute, Stmt.executeElse]

/-- A cell after a value has been put into a cell of a memory. -/
theorem State.cell_setCell (s : State) {memory : String} {index : Nat}
    (hindex : index < Γ.depth memory) (v : Nat) (other : String) (place : Nat) :
    (s.setCell Γ memory index v).cell other place
      = if other = memory ∧ place = index then v else s.cell other place := by
  rw [State.setCell, if_pos hindex]
  simp only []
  by_cases hmemory : other = memory
  · subst hmemory
    rw [Function.update_self, Function.update_apply]
    exact if_congr (by simp) rfl rfl
  · rw [Function.update_of_ne hmemory, if_neg fun h => hmemory h.1]

/-- A memory that is written when it is enabled. -/
theorem stored_next (h : m.Runs library Γ τ) {memory index enable value : String}
    {width depth : Nat} {items : List Item}
    (hbody : Body.enabled (.element memory (.ref index)) (.ref enable) (.ref value) = .ok items)
    (hsub : ∀ i ∈ items, i ∈ m.body) (hmemory : (memory, width, depth) ∈ m.memories)
    (henable : (enable, 1) ∈ m.signals) (t : Nat) (hplace : (τ t).value index < depth)
    (hvalue : (τ t).value value < 2 ^ width) {place : Nat} (hbelow : place < depth) :
    (τ (t + 1)).cell memory place
      = if (τ t).value enable = 1 ∧ (τ t).value index = place then (τ t).value value
        else (τ t).cell memory place := by
  rcases Except.ok.inj hbody with ⟨⟩
  rcases h.memory_eq hmemory with ⟨hwidth, hdepth⟩
  -- The memory is a target of the process that writes it, so that the process says all about it.
  have htarget : memory ∈ Stmt.targetsOfAll
      [.when (.ref enable) [.update (.element memory (.ref index)) (.ref value)]] := by
    simp [Stmt.when, Stmt.targetsOfAll, Stmt.targets, Stmt.targetsOfBranches, Expr.target?]
  have hbit := h.isBit henable t
  have hafter := (h.holds t _ (hsub _ (List.mem_singleton_self _)) memory htarget).2 place
    (by rw [hdepth]; exact hbelow)
  rw [Stmt.executeAll, Stmt.executeAll, Stmt.when, Stmt.execute, Stmt.executeFirst,
    Stmt.executeFirst, Stmt.executeElse] at hafter
  by_cases hon : (τ t).value enable = 1
  · rw [if_pos (hbit.own_ne_zero.mpr hon), Stmt.executeAll, Stmt.executeAll, Stmt.execute,
      State.put, Expr.own_ref, hwidth, Expr.assigned_ref hvalue,
      State.cell_setCell _ (by rw [hdepth]; exact hplace)] at hafter
    rw [hafter]
    exact if_congr (by simp [hon, eq_comm]) rfl rfl
  · rw [if_neg (mt hbit.own_ne_zero.mp hon)] at hafter
    rw [if_neg fun hc => hon hc.1]
    exact hafter

end Module.Runs

end Rtl

end StencilRtl
