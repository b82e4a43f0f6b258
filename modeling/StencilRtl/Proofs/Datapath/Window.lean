import Mathlib
import StencilRtl.Hardware.Stage
import StencilRtl.Proofs.Datapath.Order

/-!
# The Window a Load Leaves Behind

What the output assembly of a stage holds after a load, and when it is what the body
says.

A stage connects its datapath and its output assembly. The assembly merges the
results of a load, in order, into the window it holds, and shows the datapath the
window as it was before. So a store is not seen by what stands after it in the same
body: what the assembly holds after a load is the window of the run at once.

That is the window of the run in order just if the two runs agree, which they do
under `InOrder`. `readBack` is a body for which they do not. It stores an input
into the first element of its output and one more than that element into the
second. A datapath can be made of it, and the second element comes out as one more
than what the first one held before the load.

## Main definitions

* `Rtl.Item.Connects`: The signals of an instance are those it is connected to.
* `StagePlan.Cycle`: The signals of a stage and its parts in one cycle.
* `Interpretation.naturals`: Arithmetic on natural numbers.
* `StagePlan.readBack`: A body that reads what it has stored.

## Theorems

* `AssemblyPlan.body_ok`: The items of an output assembly.
* `edge_acc`: The results of a load are merged into the window.
* `load_window`: The window after a load, and when it is what the body says.
-/

namespace StencilRtl

/-- The signals of an instance are those it is connected to. -/
def Rtl.Item.Connects {V : Type} (outer inner : Signals V) : Rtl.Item → Prop
  | .submodule _ _ connections => ∀ port name, (port, .ref name) ∈ connections →
      inner.value port = outer.value name ∧ inner.element port = outer.element name
  | _ => True

/-- The signals of a stage, of its datapath and of its output assembly in one
    cycle. -/
structure StagePlan.Cycle (p : StagePlan) {V : Type} (I : Interpretation V)
    (m w : Rtl.Module) (outer σ τ : Signals V) : Prop where
  datapath : Settled I m σ
  assembly : Settled I w τ
  operands : (p.datapath m.name).Connects outer σ
  results : (p.assembly w.name).Connects outer τ

/-- The items of an output assembly. -/
theorem AssemblyPlan.body_ok {p : AssemblyPlan} {items : List Rtl.Item} (h : p.body = .ok items) :
    ∃ width, items =
      [.reg "acc" width, .reg "acc_next" width, .reg "r_value" width, .reg "r_valid" 1,
        .wire "write" 1, .assign (.ref "write") (.and (.ref "enable") (.ref "load")),
        .process .combinational
          [.set (.ref "acc_next") (.ref "acc"),
            .when (.ref "write") ((List.range p.writes).map p.merge)],
        .process .clocked [.when (.ref "write") [.update (.ref "acc") (.ref "acc_next")]],
        .wire "capture" 1,
        .assign (.ref "capture") (.all (Rtl.Expr.refs ["write", "last", "commit"])),
        .process .clocked [.when (.ref "capture") [.update (.ref "r_value") (.ref "acc_next")]],
        .process .clocked [.choose
          [(.ref Rtl.reset, [.update (.ref "r_valid") (.number 0)]),
            (.ref "capture", [.update (.ref "r_valid") (.number 1)]),
            (.ref "out_ready", [.update (.ref "r_valid") (.number 0)])] none],
        .assign (.ref "acc_out") (.ref "acc"), .assign (.ref "out_value") (.ref "r_value"),
        .assign (.ref "out_valid") (.ref "r_valid"),
        .assign (.ref "space") (.or (.not (.ref "r_valid")) (.ref "out_ready"))] := by
  rcases Fallible.bind_ok.mp h with ⟨width, _, hjoin⟩
  refine ⟨width, ?_⟩
  by_cases hwidth : width = 0
  · rcases Fallible.bind_ok.mp hjoin with ⟨first, hfirst, _⟩
    exact absurd hwidth (Rtl.Body.reg_ok hfirst).1
  · simp only [Rtl.Body.join, Rtl.Body.reg, if_neg hwidth, Rtl.Body.net, Rtl.Body.wire,
      Rtl.Body.assign, merged, Rtl.Body.item, Rtl.Body.enabled, Rtl.Body.register] at hjoin
    exact (Except.ok.inj hjoin).symm

section

variable {p : StagePlan} {V : Type} {I : Interpretation V} {σ τ outer : Signals V}
  {m w : Rtl.Module}

/-- The results of a load are in the size of the window's elements. -/
theorem StagePlan.Follows.result_fit {indexWidth : Nat} (actions : List Action) (k : Nat)
    (stored : List StoredElement) (h : p.Follows I σ indexWidth k actions stored) :
    ∀ i, k ≤ i → i < k + actions.countP (Action.writesTo p.output.stencil) →
      I.fit p.output.shape.elem.bits (σ.value (resultSignal i)) = σ.value (resultSignal i) := by
  induction h using StagePlan.Follows.induction_on with
  | nil k =>
      intro i hi hlt
      rw [List.countP_nil] at hlt
      omega
  | letIn _ _ ih => exact ih
  | output hout hvalue _ _ _ ih =>
      intro i hi hlt
      rw [StagePlan.countP_writesTo_output hout] at hlt
      -- The first result is the one that is stored here, the others are stored later.
      rcases Nat.eq_or_lt_of_le hi with rfl | hlater
      · rw [hvalue, I.fit_fit]
      · exact ih i hlater (by omega)
  | kept hout _ _ _ _ _ ih =>
      intro i hi hlt
      rw [StagePlan.countP_writesTo_local hout] at hlt
      exact ih i hi hlt

/-- Merging puts the results into the word one after the other. -/
theorem executeAll_merge (a : AssemblyPlan) (τ : Signals V) (ks : List Nat)
    (words : String → Nat → V) :
    I.executeAll τ words (ks.map a.merge) "acc_next"
      = ks.foldl (fun window k => Function.update window (I.index (τ.value (indexSignal k)))
          (I.fit a.shape.elem.bits (τ.value (resultSignal k)))) (words "acc_next") := by
  induction ks generalizing words with
  | nil => rfl
  | cons k rest ih =>
      rw [List.map_cons, Interpretation.executeAll, ih, List.foldl_cons]
      simp only [AssemblyPlan.merge, Interpretation.execute, Interpretation.assigned,
        Interpretation.eval, Function.update_self]

/-- The results of a load are merged into the window. -/
theorem edge_acc {a : AssemblyPlan} (hw : a.body = .ok w.body) (hτ : Settled I w τ)
    (hload : I.holds (τ.value "write") = true) :
    I.edge τ w.body "acc"
      = (List.range a.writes).foldl
          (fun window k => Function.update window (I.index (τ.value (indexSignal k)))
            (I.fit a.shape.elem.bits (τ.value (resultSignal k)))) (τ.element "acc") := by
  rcases AssemblyPlan.body_ok hw with ⟨width, hbody⟩
  have hprocess := hτ.process _ (List.mem_of_getElem? (i := 6) (by rw [hbody]; rfl))
  -- The merged window is what the process leaves, whatever it has found.
  have hnext : τ.element "acc_next"
      = (List.range a.writes).foldl
          (fun window k => Function.update window (I.index (τ.value (indexSignal k)))
            (I.fit a.shape.elem.bits (τ.value (resultSignal k)))) (τ.element "acc") := by
    have hguard : ∀ words, I.holds (I.eval ⟨τ.value, words⟩ (.ref "write")) = true := fun _ => hload
    rw [Interpretation.executeAll, Interpretation.executeAll, Interpretation.executeAll,
      Interpretation.execute_when, if_pos (hguard _)] at hprocess
    have hrun := congrFun hprocess "acc_next"
    rw [executeAll_merge] at hrun
    simp only [Interpretation.execute, Interpretation.assigned, Function.update_self] at hrun
    exact hrun.symm
  -- Of the registers updated at the edge only one is the window under construction.
  have hguard : ∀ words, I.holds (I.eval ⟨τ.value, words⟩ (.ref "write")) = true := fun _ => hload
  have hvalid : ∀ words, I.executeAll τ words
      [.choose [(.ref Rtl.reset, [.update (.ref "r_valid") (.number 0)]),
        (.ref "capture", [.update (.ref "r_valid") (.number 1)]),
        (.ref "out_ready", [.update (.ref "r_valid") (.number 0)])] none] = words := by
    intro words
    simp only [Interpretation.executeAll, Interpretation.execute, Interpretation.executeFirst,
      Interpretation.executeElse, Interpretation.assigned, ite_self]
  rw [← hnext, hbody]
  simp only [Interpretation.edge, List.foldl_cons, List.foldl_nil, hvalid]
  simp only [Interpretation.executeAll, Interpretation.execute_when, if_pos (hguard _),
    Interpretation.execute, Interpretation.assigned]
  split
  · rw [Function.update_of_ne (by decide), Function.update_self]
  · rw [Function.update_self]

/-- What a load finds lasts until the body binds or stores. -/
theorem agree_start (σ anything : Signals V) :
    Scope.Agree (p.start σ anything) (p.lasting [] p.actions) σ := by
  constructor
  · intro name hlasting
    have hfree : ¬p.actions.any (Action.binds name) = true := by
      intro hany
      rcases List.any_eq_true.mp hany with ⟨a, ha, hbinds⟩
      rw [hlasting a ha] at hbinds
      exact absurd hbinds (by decide)
    rw [StagePlan.start]
    simp only [if_neg hfree]
  · intro stencil place hlasting
    have hforeign : ¬p.isLocal stencil = true := fun hlocal =>
      absurd (hlasting.2 hlocal).1 List.not_mem_nil
    rw [StagePlan.start]
    simp only [if_neg hforeign]

/-- The assembly reads the results the datapath puts out. -/
theorem StagePlan.Cycle.results_eq (h : p.Cycle I m w outer σ τ) {k : Nat}
    (hk : k < p.writer.writes) : τ.value (resultSignal k) = σ.value (resultSignal k) ∧
      τ.value (indexSignal k) = σ.value (indexSignal k) := by
  have hresult : resultSignal k ∈ p.resultSignals :=
    List.mem_flatMap.mpr ⟨k, List.mem_range.mpr hk, List.mem_cons_self ..⟩
  have hindex : indexSignal k ∈ p.resultSignals :=
    List.mem_flatMap.mpr
      ⟨k, List.mem_range.mpr hk, List.mem_cons_of_mem _ (List.mem_cons_self ..)⟩
  -- Both instances are connected to signals of the stage with the names of the results.
  have hboth : ∀ name ∈ p.resultSignals, τ.value name = σ.value name := by
    intro name hname
    have hsame : (name, Rtl.Expr.ref name) ∈ Rtl.sameNames p.resultSignals :=
      List.mem_map.mpr ⟨name, hname, rfl⟩
    have hin := (h.operands name name (by simp [hsame])).1
    have hout := (h.results name name (by simp [hsame])).1
    rw [hin, hout]
  exact ⟨hboth _ hresult, hboth _ hindex⟩

/-- The datapath reads the window the assembly has under construction. -/
theorem StagePlan.Cycle.acc_eq (h : p.Cycle I m w outer σ τ) (hw : p.writer.body = .ok w.body) :
    τ.element "acc" = σ.element p.output.stencil := by
  rcases AssemblyPlan.body_ok hw with ⟨width, hbody⟩
  have hshown := h.assembly.word "acc_out" "acc"
    (List.mem_of_getElem? (i := 12) (by rw [hbody]; rfl))
  rw [← hshown, (h.results "acc_out" "acc" (by simp)).2,
    (h.operands p.output.stencil "acc" (by simp)).2]

/-- The output is no local stencil, so a load begins with what is there. -/
theorem start_output (σ anything : Signals V) :
    (p.start σ anything).element p.output.stencil = σ.element p.output.stencil := by
  have hforeign : ¬p.isLocal p.output.stencil = true := by simp [StagePlan.isLocal]
  rw [StagePlan.start]
  simp only [if_neg hforeign]

/-- The window the assembly has after a load is that of the run at once. It is the
    window of the run in order just if the two agree, and they do under `InOrder`. -/
theorem load_window (hm : p.HasDatapath m) (hw : p.writer.body = .ok w.body)
    (h : p.Cycle I m w outer σ τ) (hload : I.holds (τ.value "write") = true)
    (anything : Signals V) :
    ∃ indexWidth, p.writer.indexWidth = .ok indexWidth ∧
      I.edge τ w.body "acc"
        = (p.run I (.atOnce I σ indexWidth) (p.start σ anything) p.actions).element
            p.output.stencil ∧
      (I.edge τ w.body "acc"
          = (p.run I (.inOrder I) (p.start σ anything) p.actions).element p.output.stencil ↔
        (p.run I (.atOnce I σ indexWidth) (p.start σ anything) p.actions).element p.output.stencil
          = (p.run I (.inOrder I) (p.start σ anything) p.actions).element p.output.stencil) ∧
      (I.Indexes → p.InOrder I (p.start σ anything) [] p.actions →
        I.edge τ w.body "acc"
          = (p.run I (.inOrder I) (p.start σ anything) p.actions).element p.output.stencil) := by
  rcases hm.follows h.datapath with ⟨indexWidth, stored, hwidth, hfollows, hdriven⟩
  have hmerged : I.edge τ w.body "acc"
      = (p.run I (.atOnce I σ indexWidth) (p.start σ anything) p.actions).element
          p.output.stencil := by
    rw [edge_acc hw h.assembly hload, StagePlan.run_atOnce p.actions 0 stored _ hfollows,
      start_output, results, ← List.range_eq_range', h.acc_eq hw]
    -- A result is fit into an element twice, by the datapath and by the assembly.
    refine List.foldl_ext _ _ _ fun window k hk => ?_
    have hbelow := List.mem_range.mp hk
    have hfit := hfollows.result_fit p.actions 0 stored k (Nat.zero_le k)
      (by rw [Nat.zero_add]; exact hbelow)
    rw [(h.results_eq hbelow).1, (h.results_eq hbelow).2]
    exact congrArg (Function.update window _) hfit
  refine ⟨indexWidth, hwidth, hmerged, by rw [hmerged], fun hI horder => ?_⟩
  rw [hmerged]
  exact (StagePlan.run_inOrder hI hwidth p.actions 0 [] stored [] _ _ hfollows hdriven horder
    (agree_start σ anything) rfl).symm

end

/-- Arithmetic on natural numbers. A comparison is one or zero. -/
def Interpretation.naturals : Interpretation Nat where
  literal _ value := value
  signedLiteral _ value := value.toNat
  number value := value.toNat
  not a := if a = 0 then 1 else 0
  isZero a := if a = 0 then 1 else 0
  negate _ := 0
  binary
    | .add, a, b => a + b
    | .sub, a, b => a - b
    | .mul, a, b => a * b
    | .div, a, b => a / b
    | .mod, a, b => a % b
    | .eq, a, b => if a = b then 1 else 0
    | .ne, a, b => if a = b then 0 else 1
    | .lt, a, b => if a < b then 1 else 0
    | .le, a, b => if a ≤ b then 1 else 0
    | .gt, a, b => if b < a then 1 else 0
    | .ge, a, b => if b ≤ a then 1 else 0
    | .logicalAnd, a, b => if a ≠ 0 ∧ b ≠ 0 then 1 else 0
    | .logicalOr, a, b => if a ≠ 0 ∨ b ≠ 0 then 1 else 0
    | .bitAnd, a, b => a &&& b
    | .bitOr, a, b => a ||| b
    | .bitXor, a, b => a ^^^ b
    | .shiftLeft, a, b => a <<< b
    | .shiftRight, a, b => a >>> b
    | .shiftRightSigned, a, b => a >>> b
  all terms := if terms.all (· ≠ 0) then 1 else 0
  any terms := if terms.any (· ≠ 0) then 1 else 0
  mux condition ifTrue ifFalse := if condition = 0 then ifFalse else ifTrue
  concat _ := 0
  part a low width := a >>> low % 2 ^ width
  field a index width := a >>> (index * width) % 2 ^ width
  signed a := a
  unsigned a := a
  fit width a := a % 2 ^ width
  index a := a
  holds a := a ≠ 0
  fit_fit width a := Nat.mod_mod a (2 ^ width)

theorem Interpretation.naturals_indexes : Interpretation.naturals.Indexes :=
  ⟨fun _ _ _ => rfl, fun _ _ h => Nat.mod_eq_of_lt h⟩

namespace StagePlan

/-- A stage that gives pairs for single numbers. -/
def pairs (actions : List Action) : StagePlan :=
  ⟨"pairs", [⟨"x", 0, 4⟩], [], [⟨"in_stream", "in_stencil", .stream (.uint 8) [1]⟩],
    ⟨"out_stream", "out_stencil", .stream (.uint 8) [2]⟩, none, [],
    [⟨"sum_stencil", .stencil (.uint 8) [1]⟩], actions, 4⟩

/-- An element of a stencil of the stage. -/
def pairElement (stencil : String) (index : Int64) : Expr :=
  .call (.uint 8) stencil [.intImm (.int 32) index] .access

/-- A store into a stencil of the stage. -/
def pairStore (stencil : String) (index : Int64) (value : Expr) : Action :=
  .provide stencil [.intImm (.int 32) index] value

/-- A body that reads what it has stored. -/
def readBack : StagePlan :=
  pairs
    [pairStore "out_stencil" 0 (pairElement "in_stencil" 0),
      pairStore "out_stencil" 1
        (.binary .add (pairElement "out_stencil" 0) (.uintImm (.uint 8) 1))]

/-- A body that adds twice its input to the second element of its output. -/
def runningSum : StagePlan :=
  pairs
    [.letIn "twice" (.binary .add (pairElement "in_stencil" 0) (pairElement "in_stencil" 0)),
      pairStore "sum_stencil" 0
        (.binary .add (.var (.uint 8) "twice") (pairElement "out_stencil" 1)),
      pairStore "out_stencil" 0 (pairElement "in_stencil" 0),
      pairStore "out_stencil" 1 (pairElement "sum_stencil" 0)]

/-- The ports of a datapath of such a stage. -/
def pairPorts : List Rtl.Port :=
  Rtl.Port.common ++ [.input "x" 2, .input "in_stencil" 8, .input "out_stencil" 16,
    .output "result_0" 8, .output "index_0" 1, .output "result_1" 8, .output "index_1" 1,
    .output "commit" 1]

/-- The datapath of `readBack`. -/
def readBackDatapath : Rtl.Module :=
  ⟨"Compute_pairs", pairPorts,
    [.wire "sum_stencil" 8, .assign (.ref "result_0") (.part (.ref "in_stencil") 0 8),
      .assign (.ref "index_0") (.literal 1 0),
      .assign (.ref "result_1") (.binary .add (.part (.ref "out_stencil") 0 8) (.literal 8 1)),
      .assign (.ref "index_1") (.literal 1 1),
      .assign (.part (.ref "sum_stencil") 0 8) (.literal 8 0),
      .assign (.ref "commit") (.literal 1 1)]⟩

/-- The datapath of `runningSum`. -/
def runningSumDatapath : Rtl.Module :=
  ⟨"Compute_pairs", pairPorts,
    [.wire "sum_stencil" 8, .wire "twice" 8,
      .assign (.ref "twice")
        (.binary .add (.part (.ref "in_stencil") 0 8) (.part (.ref "in_stencil") 0 8)),
      .assign (.ref "result_0") (.part (.ref "in_stencil") 0 8),
      .assign (.ref "index_0") (.literal 1 0),
      .assign (.ref "result_1") (.part (.ref "sum_stencil") 0 8),
      .assign (.ref "index_1") (.literal 1 1),
      .assign (.part (.ref "sum_stencil") 0 8)
        (.binary .add (.ref "twice") (.part (.ref "out_stencil") 8 8)),
      .assign (.ref "commit") (.literal 1 1)]⟩

/-- The output assembly of such a stage. -/
def pairAssembly : Rtl.Module :=
  ⟨"WrStream_UInt8_2_2", [],
    [.reg "acc" 16, .reg "acc_next" 16, .reg "r_value" 16, .reg "r_valid" 1, .wire "write" 1,
      .assign (.ref "write") (.and (.ref "enable") (.ref "load")),
      .process .combinational
        [.set (.ref "acc_next") (.ref "acc"),
          .when (.ref "write")
            [.set (.field (.ref "acc_next") (.ref "index_0") 8) (.ref "result_0"),
              .set (.field (.ref "acc_next") (.ref "index_1") 8) (.ref "result_1")]],
      .process .clocked [.when (.ref "write") [.update (.ref "acc") (.ref "acc_next")]],
      .wire "capture" 1,
      .assign (.ref "capture") (.all (Rtl.Expr.refs ["write", "last", "commit"])),
      .process .clocked [.when (.ref "capture") [.update (.ref "r_value") (.ref "acc_next")]],
      .process .clocked [.choose
        [(.ref Rtl.reset, [.update (.ref "r_valid") (.number 0)]),
          (.ref "capture", [.update (.ref "r_valid") (.number 1)]),
          (.ref "out_ready", [.update (.ref "r_valid") (.number 0)])] none],
      .assign (.ref "acc_out") (.ref "acc"), .assign (.ref "out_value") (.ref "r_value"),
      .assign (.ref "out_valid") (.ref "r_valid"),
      .assign (.ref "space") (.or (.not (.ref "r_valid")) (.ref "out_ready"))]⟩

/-- The signals of the stage in a load that finds the input 5 and the window 7, 8. -/
def pairSignals (sum first second : Nat) : Signals Nat where
  value
    | "twice" => 10
    | "result_0" => first
    | "result_1" => second
    | "index_1" => 1
    | "commit" => 1
    | "enable" => 1
    | "load" => 1
    | "write" => 1
    | "space" => 1
    | _ => 0
  element
    | "in_stencil" => fun _ => 5
    | "in_stream_value" => fun _ => 5
    | "out_stencil" => fun i => 7 + i
    | "acc" => fun i => 7 + i
    | "acc_out" => fun i => 7 + i
    | "acc_next" => Function.update (Function.update (fun i => 7 + i) 0 first) 1 second
    | "sum_stencil" => fun _ => sum
    | _ => fun _ => 0

theorem readBackDatapath_hasDatapath : readBack.HasDatapath readBackDatapath :=
  ⟨by cbv, by cbv, _, if_neg (by decide)⟩

theorem runningSumDatapath_hasDatapath : runningSum.HasDatapath runningSumDatapath :=
  ⟨by cbv, by cbv, _, if_neg (by decide)⟩

theorem pairAssembly_body (actions : List Action)
    (h : actions.countP (Action.writesTo "out_stencil") = 2) :
    (pairs actions).writer.body = .ok pairAssembly.body := by
  have hwriter : (pairs actions).writer = ⟨.stream (.uint 8) [2], 2⟩ :=
    congrArg (AssemblyPlan.mk _) h
  rw [hwriter]
  cbv

theorem settled_pairAssembly (sum first second : Nat) (hfirst : first < 2 ^ 8)
    (hsecond : second < 2 ^ 8) :
    Settled .naturals pairAssembly (pairSignals sum first second) := by
  constructor
  · intro name width value hdeclares hassign
    simp only [pairAssembly, List.mem_cons, List.not_mem_nil, Rtl.Item.assign.injEq,
      Rtl.Expr.ref.injEq, reduceCtorEq, false_or, or_false] at hassign
    simp only [Rtl.Module.Declares, pairAssembly, List.mem_cons, List.not_mem_nil, false_and,
      exists_false, reduceCtorEq, Rtl.Item.wire.injEq, false_or, or_false] at hdeclares
    rcases hdeclares with ⟨rfl, rfl⟩ | ⟨rfl, rfl⟩
    · simp at hassign
      rw [hassign]
      rfl
    · simp at hassign
      rw [hassign]
      rfl
  · intro word low width value hassign
    simp [pairAssembly] at hassign
  · intro word source hassign
    simp [pairAssembly, Rtl.Expr.and, Rtl.Expr.or] at hassign
    rcases hassign with ⟨rfl, rfl⟩ | ⟨rfl, rfl⟩ | ⟨rfl, rfl⟩
    · rfl
    · rfl
    · rfl
  · intro body hprocess
    simp [pairAssembly] at hprocess
    subst hprocess
    -- The assembly loads, so the process merges both results into the window.
    have hwrite : ∀ words, Interpretation.naturals.holds (Interpretation.naturals.eval
        ⟨(pairSignals sum first second).value, words⟩ (.ref "write")) = true := fun _ => rfl
    rw [Interpretation.executeAll, Interpretation.executeAll, Interpretation.executeAll,
      Interpretation.execute_when, if_pos (hwrite _)]
    simp only [Interpretation.executeAll, Interpretation.execute, Interpretation.assigned,
      Function.update_idem, Function.update_self, Interpretation.eval]
    have hmerged : Function.update (Function.update (fun i => 7 + i) 0 (first % 2 ^ 8)) 1
        (second % 2 ^ 8) = (pairSignals sum first second).element "acc_next" := by
      rw [Nat.mod_eq_of_lt hfirst, Nat.mod_eq_of_lt hsecond]
      rfl
    exact (congrArg _ hmerged).trans (Function.update_eq_self ..)

theorem settled_readBack : Settled .naturals readBackDatapath (pairSignals 0 5 8) := by
  constructor
  · intro name width value hdeclares hassign
    simp [readBackDatapath, pairPorts, Rtl.Port.common, Rtl.Port.input, Rtl.Port.output,
      Rtl.Module.Declares] at hdeclares hassign
    rcases hassign with ⟨rfl, rfl⟩ | ⟨rfl, rfl⟩ | ⟨rfl, rfl⟩ | ⟨rfl, rfl⟩ | ⟨rfl, rfl⟩
    all_goals
      simp [Rtl.clock, Rtl.reset] at hdeclares
      subst hdeclares
      rfl
  · intro word low width value hassign
    simp [readBackDatapath] at hassign
    rcases hassign with ⟨⟨rfl, rfl, rfl⟩, rfl⟩
    rfl
  · intro word source hassign
    simp [readBackDatapath] at hassign
  · intro body hprocess
    simp [readBackDatapath] at hprocess

theorem settled_runningSum : Settled .naturals runningSumDatapath (pairSignals 18 5 18) := by
  constructor
  · intro name width value hdeclares hassign
    simp [runningSumDatapath, pairPorts, Rtl.Port.common, Rtl.Port.input, Rtl.Port.output,
      Rtl.Module.Declares] at hdeclares hassign
    rcases hassign with ⟨rfl, rfl⟩ | ⟨rfl, rfl⟩ | ⟨rfl, rfl⟩ | ⟨rfl, rfl⟩ | ⟨rfl, rfl⟩ | ⟨rfl, rfl⟩
    all_goals
      simp [Rtl.clock, Rtl.reset] at hdeclares
      subst hdeclares
      rfl
  · intro word low width value hassign
    simp [runningSumDatapath] at hassign
    rcases hassign with ⟨⟨rfl, rfl, rfl⟩, rfl⟩
    rfl
  · intro word source hassign
    simp [runningSumDatapath] at hassign
  · intro body hprocess
    simp [runningSumDatapath] at hprocess

/-- The signals of the stage are wired to each other by being the same. -/
theorem pairs_connects (actions : List Action)
    (h : actions.countP (Action.writesTo "out_stencil") = 2) (sum first second : Nat) :
    ((pairs actions).datapath "Compute_pairs").Connects
        (pairSignals sum first second) (pairSignals sum first second) ∧
      ((pairs actions).assembly "WrStream_UInt8_2_2").Connects
        (pairSignals sum first second) (pairSignals sum first second) := by
  have hsignals :
      (pairs actions).resultSignals = ["result_0", "index_0", "result_1", "index_1"] := by
    have hwrites : (pairs actions).writer.writes = 2 := h
    rw [resultSignals, hwrites]
    cbv
  constructor
  · intro port name hconnected
    rw [hsignals] at hconnected
    simp [pairs, vars, Rtl.sameNames, Rtl.commonConnections] at hconnected
    -- Each port is connected to a signal of its own name, so there is nothing to compare.
    rcases hconnected with ⟨rfl, rfl⟩ | ⟨rfl, rfl⟩ | ⟨rfl, rfl⟩ | ⟨rfl, rfl⟩ | ⟨rfl, rfl⟩ |
      ⟨rfl, rfl⟩ | ⟨rfl, rfl⟩ | ⟨rfl, rfl⟩ | ⟨rfl, rfl⟩ | ⟨rfl, rfl⟩
    all_goals exact ⟨rfl, rfl⟩
  · intro port name hconnected
    rw [hsignals] at hconnected
    simp [pairs, Rtl.sameNames, Rtl.commonConnections] at hconnected
    rcases hconnected with ⟨rfl, rfl⟩ | ⟨rfl, rfl⟩ | ⟨rfl, rfl⟩ | ⟨rfl, rfl⟩ | ⟨rfl, rfl⟩ |
      ⟨rfl, rfl⟩ | ⟨rfl, rfl⟩ | ⟨rfl, rfl⟩ | ⟨rfl, rfl⟩ | ⟨rfl, rfl⟩ | ⟨rfl, rfl⟩ | ⟨rfl, rfl⟩ |
      ⟨rfl, rfl⟩ | ⟨rfl, rfl⟩ | ⟨rfl, rfl⟩
    all_goals exact ⟨rfl, rfl⟩

theorem readBack_cycle :
    readBack.Cycle .naturals readBackDatapath pairAssembly (pairSignals 0 5 8)
      (pairSignals 0 5 8) (pairSignals 0 5 8) :=
  ⟨settled_readBack, settled_pairAssembly 0 5 8 (by decide) (by decide),
    (pairs_connects _ rfl 0 5 8).1, (pairs_connects _ rfl 0 5 8).2⟩

theorem runningSum_cycle :
    runningSum.Cycle .naturals runningSumDatapath pairAssembly (pairSignals 18 5 18)
      (pairSignals 18 5 18) (pairSignals 18 5 18) :=
  ⟨settled_runningSum, settled_pairAssembly 18 5 18 (by decide) (by decide),
    (pairs_connects _ rfl 18 5 18).1, (pairs_connects _ rfl 18 5 18).2⟩

/-- Nothing is read too early or too late when a sum is kept. -/
theorem runningSum_inOrder (anything : Signals Nat) :
    runningSum.InOrder .naturals (runningSum.start (pairSignals 18 5 18) anything) []
      runningSum.actions := by
  have hcoordinate : ∀ s known, runningSum.scope.seesAll .naturals s known []
      [Expr.intImm (.int 32) 0] := fun _ _ => ⟨trivial, trivial⟩
  have hcoordinate' : ∀ s known, runningSum.scope.seesAll .naturals s known []
      [Expr.intImm (.int 32) 1] := fun _ _ => ⟨trivial, trivial⟩
  have hinput : ∀ stored pending, (runningSum.lasting stored pending).element "in_stencil" 0 :=
    fun _ _ => ⟨fun h => absurd h (by decide), fun h => absurd h (by decide)⟩
  -- The four actions one after the other.
  refine ⟨⟨⟨hcoordinate _ _, fun _ => hinput _ _⟩, hcoordinate _ _, fun _ => hinput _ _⟩, ?_⟩
  refine ⟨⟨fun _ => ?_, hcoordinate' _ _, fun _ => ?_⟩, hcoordinate _ _, ?_, ?_⟩
  · change ∀ a ∈ _, Action.binds "twice" a = false
    decide
  · change (_ = _ → ("out_stencil", 1) ∉ []) ∧ (_ → _)
    exact ⟨fun _ => List.not_mem_nil, fun h => absurd h (by decide)⟩
  · exact ⟨.stencil (.uint 8) [1], by decide, (by decide : 0 < 1)⟩
  refine ⟨⟨hcoordinate _ _, fun _ => hinput _ _⟩, hcoordinate _ _, ?_, ?_⟩
  · exact ⟨.stream (.uint 8) [2], by decide, (by decide : 0 < 2)⟩
  refine ⟨⟨hcoordinate _ _, fun _ => ?_⟩, hcoordinate' _ _, ?_, trivial⟩
  · change (_ = _ → _) ∧ (_ → ("sum_stencil", 0) ∈ [("out_stencil", 0), ("sum_stencil", 0)] ∧
      ∀ a ∈ _, runningSum.storesInto "sum_stencil" 0 a = false)
    exact ⟨fun h => absurd h (by decide), fun _ => by decide⟩
  · exact ⟨.stream (.uint 8) [2], by decide, (by decide : 1 < 2)⟩

end StagePlan

/-- A sum that is kept in a local stencil comes out as the body says. -/
theorem load_window_runningSum :
    Interpretation.naturals.edge (StagePlan.pairSignals 18 5 18) StagePlan.pairAssembly.body "acc"
      = (StagePlan.runningSum.run .naturals (.inOrder .naturals)
          (StagePlan.runningSum.start (StagePlan.pairSignals 18 5 18)
            (StagePlan.pairSignals 0 0 0))
          StagePlan.runningSum.actions).element "out_stencil" := by
  rcases load_window StagePlan.runningSumDatapath_hasDatapath
    (StagePlan.pairAssembly_body StagePlan.runningSum.actions rfl) StagePlan.runningSum_cycle rfl
    (StagePlan.pairSignals 0 0 0) with ⟨_, _, _, _, hwindow⟩
  exact hwindow Interpretation.naturals_indexes (StagePlan.runningSum_inOrder _)

/-- What `readBack` reads of its output is not what it has stored: the stage and its
    signals in a load after which the window is not the one the body says. -/
theorem readBack_load_ne :
    ∃ (m w : Rtl.Module) (s : Signals Nat), StagePlan.readBack.HasDatapath m ∧
      StagePlan.readBack.writer.body = .ok w.body ∧
      StagePlan.readBack.Cycle .naturals m w s s s ∧
      Interpretation.naturals.holds (s.value "write") = true ∧
      Interpretation.naturals.edge s w.body "acc"
        ≠ (StagePlan.readBack.run .naturals (.inOrder .naturals) (StagePlan.readBack.start s s)
            StagePlan.readBack.actions).element StagePlan.readBack.output.stencil := by
  have hbody : StagePlan.readBack.writer.body = .ok StagePlan.pairAssembly.body :=
    StagePlan.pairAssembly_body StagePlan.readBack.actions rfl
  refine ⟨_, _, _, StagePlan.readBackDatapath_hasDatapath, hbody, StagePlan.readBack_cycle, rfl,
    fun hsame => ?_⟩
  have hsecond := congrFun hsame 1
  rw [edge_acc hbody StagePlan.readBack_cycle.assembly rfl] at hsecond
  exact absurd hsecond (by decide)

end StencilRtl
