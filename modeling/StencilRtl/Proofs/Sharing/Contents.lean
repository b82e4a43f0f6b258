import StencilRtl.Proofs.Datapath.Load
import StencilRtl.Proofs.LineBuffer.Windows
import StencilRtl.Proofs.Rtl.Declarations
import StencilRtl.Proofs.Scan.Counters
import StencilRtl.Proofs.Sharing.Recipes

/-!
# Contents of Modules

What is declared in the modules of a design.

Each module is built by one function, and the names it declares and the instances it has
are read off that function rule by rule. They come in the order in which they are written,
so the lists here follow the text of the functions. Only in a datapath the order is not that
of the text: what an action binds is declared behind the conversions its value needs, and
how many of those there are is known when all actions have been lowered. So there the names
are known up to their order, with the conversions numbered through.

## Main definitions

* `Rtl.Names`: Items that have no instances, with the names they declare in some order.

## Theorems

* `SlaveInterface.declares_body`, `Adapter.declares_body`, `Queue.declares_body`,
  `ColumnStage.declares_body`, `LineBuffer.declares_rowBody`, `DispatchPlan.declares_body`,
  `AssemblyPlan.declares_body`: Modules whose names do not come from a kernel, but for the
  parameters of a slave interface.
* `LoopControl.declares_body`, `StagePlan.declares_body`: Controllers and stages.
* `StagePlan.names_datapathBody`: Datapaths.
-/

namespace StencilRtl

open Rtl Rtl.Body Rtl.Body.Declares

theorem LinearMachine.declares_body (m : LinearMachine) :
    m.body.Declares [m.stateRegister, m.nextSignal] [] := by
  refine cons reg (cons reg (cons process (cons (join_silent fun b hb => ?_) (cons process nil))))
  rcases List.mem_mapIdx.mp hb with ⟨i, hi, rfl⟩
  exact join_map_silent fun _ => assign

namespace SlaveInterface

theorem declares_storage (e : RegisterEntry) : (storageDeclaration e).Declares [storage e] [] := by
  unfold storageDeclaration
  split
  · exact .bind fun _ _ => memory
  · exact reg

theorem declares_parameterOutput (e : RegisterEntry) : (parameterOutput e).Declares [] [] := by
  unfold parameterOutput
  split
  · exact .bind fun _ _ => assign
  · exact assign

theorem declares_controlBody (dones : List String) : (controlBody dones).Declares [] [] :=
  cons register (cons (join_map_silent fun _ => register) (cons register (cons register
    (cons assign nil))))

theorem declares_writeBody (registers : List RegisterEntry) :
    (writeBody registers).Declares [] [] := by
  unfold writeBody
  split
  · exact Declares.items _
  · exact process

/-- The registers of the bus, the marks of the blocks and the parameters. -/
theorem declares_body (registers : List RegisterEntry) (dones : List String) :
    (body registers dones).Declares
      (["waddr", "raddr", "rdata", "r_start", "r_run", "r_done"] ++ (dones.map seen
        ++ (registers.map storage ++ ["wr_state", "wr_next", "wr_en", "rd_state", "rd_next"])))
      [] :=
  cons reg (cons reg (cons reg (cons (join_map_singleton fun _ => reg)
    (cons (join_map_singleton fun _ => reg) (cons (join_map_singleton declares_storage)
    (cons writeMachine.declares_body (cons enabled (cons net (cons assign
    (cons readMachine.declares_body (cons enabled (cons assign (cons assign
    (cons (declares_controlBody dones) (cons (declares_writeBody registers) (cons process
    (cons (join_map_silent declares_parameterOutput) nil)))))))))))))))))

end SlaveInterface

namespace Adapter

theorem declares_counter (move : ScanCounter × Rtl.Expr) :
    (counter move).Declares [move.1.register] [] := cons reg (cons register nil)

end Adapter

/-- The registers of an adapter and its counters. -/
theorem Adapter.declares_body (side : AdapterSide) (counters : List ScanCounter) (width : Nat) :
    (body side counters width).Declares (["started", "r_value", "r_valid"]
      ++ ((match side with
        | .inward => []
        | .outward => ["r_last"])
      ++ ("accept" :: (counters.map ScanCounter.register ++ ["done"])))) [] := by
  have hcounters : (join ((ScanCounter.moves [.ref "accept"] counters).map counter)).Declares
      (counters.map ScanCounter.register) [] := by
    have hnames : (ScanCounter.moves [.ref "accept"] counters).map (fun move => move.1.register)
        = counters.map ScanCounter.register := by
      conv_rhs => rw [← ScanCounter.map_fst_moves [.ref "accept"] counters, List.map_map]
      rfl
    exact hnames ▸ join_map_singleton declares_counter
  -- The items in order: an outward adapter also remembers whether a window was the last.
  cases side with
  | inward =>
      exact cons reg (cons reg (cons reg (cons (Declares.items _) (cons net (cons assign
        (cons hcounters (cons net (cons assign (cons register (cons enabled (cons register
        (cons (Declares.items _) (cons assign (cons assign (cons (Declares.items _)
          nil)))))))))))))))
  | outward =>
      exact cons reg (cons reg (cons reg (cons reg (cons net (cons assign
        (cons hcounters (cons net (cons assign (cons register (cons enabled (cons register
        (cons register (cons assign (cons assign (cons assign nil)))))))))))))))

theorem Queue.declares_body (g : FifoGeometry) (width : Nat) : (body g width).Declares
    ["mem", "wr_ptr", "rd_ptr", "level", "empty", "full", "r_data_out", "r_valid_out", "push",
      "pop"] [] :=
  cons memory (cons reg (cons reg (cons reg (cons reg (cons reg (cons reg (cons reg (cons net
    (cons net (cons assign (cons assign (cons assign (cons enabled (cons enabled (cons register
    (cons register (cons register (cons process nil))))))))))))))))))

theorem ColumnStage.declares_buffered (s : ColumnStage) (kept elemWidth : Nat) :
    (s.buffered kept elemWidth).Declares
      ((List.range kept).map (tileSignal kept) ++ ["col", "emit", "accept"]) [] :=
  .bind fun _ _ => .bind fun _ _ => .bind fun _ _ =>
    cons (join_map_singleton fun _ => reg) (cons reg (cons net (cons assign (cons assign (cons net
      (cons register (cons (join_map_silent fun _ => enabled)
      (cons (.bind fun _ _ => assign) nil))))))))

/-- A column stage that keeps nothing passes everything through. -/
theorem ColumnStage.declares_body (s : ColumnStage) (elemWidth : Nat) {kept : Nat}
    (hkept : s.buffers = .ok kept) : (s.body elemWidth).Declares
      (if kept = 0 then []
        else (List.range kept).map (tileSignal kept) ++ ["col", "emit", "accept"]) [] := by
  refine .bind fun a ha => ?_
  rcases Except.ok.inj (hkept.symm.trans ha) with rfl
  split
  · exact cons assign (cons assign (cons assign nil))
  · exact s.declares_buffered _ elemWidth

namespace RowStage

theorem declares_rowDeclarations (s : RowStage) (kept tileWidth m : Nat) :
    (s.rowDeclarations kept tileWidth m).Declares [s!"mem_{m}", rowSignal kept m] [] :=
  cons memory (cons reg nil)

/-- The rows and their signals. -/
theorem declares_body (s : RowStage) (elemWidth : Nat) {kept : Nat} (hkept : s.buffers = .ok kept) :
    (s.body elemWidth).Declares
      ((List.range kept).flatMap (fun m => [s!"mem_{m}", rowSignal kept m])
        ++ ["col", "row", "widx", "feed", "accept", "row_end"]) [] := by
  refine .bind fun a ha => ?_
  rcases Except.ok.inj (hkept.symm.trans ha) with rfl
  refine .bind fun _ _ => .bind fun _ _ => .bind fun _ _ => .bind fun _ _ => .bind fun _ _ =>
    .bind fun _ _ => ?_
  exact cons (join_map fun m _ => s.declares_rowDeclarations _ _ m) (cons reg (cons reg (cons reg
    (cons net (cons assign (cons assign (cons net (cons net (cons register (cons register
    (cons register (cons process (cons (.bind fun _ _ => process)
    (cons (.bind fun _ _ => assign) nil))))))))))))))

end RowStage

/-- The wires of the slices, the row stage, and the instance of the column stage. -/
theorem LineBuffer.declares_rowBody (columnName : String) (elem : ElemType) (rows : RowStage)
    (columns : ColumnStage) {kept : Nat} (hkept : rows.buffers = .ok kept) :
    (rowBody columnName elem rows columns).Declares
      (["col_in_value", "col_in_valid", "col_in_ready"]
        ++ ((List.range kept).flatMap (fun m => [s!"mem_{m}", RowStage.rowSignal kept m])
          ++ ["col", "row", "widx", "feed", "accept", "row_end"] ++ ["columns"]))
      [(columnName, "columns", columnConnections)] := by
  refine .bind fun slice hslice => .bind fun window hwindow => ?_
  rw [signals_stream hslice rfl, signals_stream hwindow rfl]
  exact cons (cons wire (cons wire (cons wire nil)))
    (cons (rows.declares_body elem.bits hkept) (cons (Declares.items _) nil))

theorem AssemblyPlan.declares_body (p : AssemblyPlan) : p.body.Declares
    ["acc", "acc_next", "r_value", "r_valid", "write", "capture"] [] :=
  .bind fun _ _ => cons reg (cons reg (cons reg (cons reg (cons net (cons process (cons enabled
    (cons net (cons enabled (cons register (cons assign (cons assign (cons assign (cons assign
      nil)))))))))))))

namespace DispatchPlan

theorem declares_boxes (p : DispatchPlan) (counters : List ScanCounter) :
    (join (p.consumers.mapIdx fun c box => do
      Body.net (inBoxSignal c) 1 (← p.boxCondition counters box))).Declares
      (p.consumerNumbers.map inBoxSignal) [] := by
  rw [List.mapIdx_eq_zipIdx_map, consumerNumbers, List.range_eq_range', ← List.zipIdx_map_snd 0,
    List.map_map]
  exact join_map_singleton fun _ => .bind fun _ _ => net

/-- The counters of a router and the boxes of its consumers. -/
theorem declares_body (p : DispatchPlan) (counters : List ScanCounter) :
    (p.body counters).Declares (counters.map ScanCounter.register
      ++ (p.consumerNumbers.map inBoxSignal ++ ["accept"])) [] :=
  cons (join_map_singleton fun _ => reg) (cons (p.declares_boxes counters) (cons assign (cons net
    (cons (join_map_silent fun _ => cons assign (cons assign nil))
    (cons (join_map_silent fun _ => register) (cons assign nil))))))

end DispatchPlan

namespace LoopControl

theorem declares_nest (advance : Rtl.Expr) (counters : List LoopCounter) :
    (join (LoopCounter.nest advance counters)).Declares [] [] := by
  induction counters generalizing advance with
  | nil => exact nil
  | cons c inner ih => exact cons register (ih advance)

/-- The counters of the loops and the state of a controller. -/
theorem declares_body (c : LoopControl) : c.body.Declares (c.vars.map LoopVar.register
    ++ ["state", "flush", "step0", "step1", "window_done", "scan_done", "flush_done"]) [] := by
  refine .bind fun _ _ => .bind fun _ _ => .bind fun _ _ => ?_
  have hshown : ∀ v : LoopVar, (shown v).Declares [v.register] [] :=
    fun _ => .bind fun _ _ => cons reg (cons assign nil)
  exact cons (join_map_singleton hshown) (cons reg (cons reg (cons net (cons net (cons assign
    (cons assign (cons (declares_nest _ _) (cons net (cons assign (cons assign
    (cons (declares_nest _ _) (cons net (cons net (cons assign (cons register
    (cons register nil))))))))))))))))

end LoopControl

namespace StagePlan

theorem declares_resultWires (p : StagePlan) :
    p.resultWires.Declares p.resultSignals [] :=
  .bind fun _ _ => join_map fun _ _ => cons wire (cons wire nil)

/-- The loops, the signals between the parts of a stage, and its three parts. -/
theorem declares_body (p : StagePlan) (controlName datapathName writerName : String) :
    (p.body controlName datapathName writerName).Declares
      (p.vars.map LoopVar.name ++ (["enable", "load", "last", "pop", "space", "commit"]
        ++ (p.resultSignals ++ ["acc", "in_valid", "control", "datapath", "writer"])))
      ([p.controller controlName, p.datapath datapathName, p.assembly writerName].filterMap
        Item.instance?) := by
  have hloops : ∀ v : LoopVar, Declares (do Body.wire v.name (← v.width)) [v.name] [] :=
    fun _ => .bind fun _ _ => wire
  have hacc : Declares (do Body.wire "acc" (← p.output.shape.dataWidth)) ["acc"] [] :=
    .bind fun _ _ => wire
  exact cons (join_map_singleton hloops) (cons (cons wire (cons wire (cons wire (cons wire
    (cons wire (cons wire nil)))))) (cons p.declares_resultWires (cons hacc (cons net
    (cons (Declares.items _) (cons (join_map_silent fun _ => assign) nil))))))

end StagePlan

/-- The name an action binds. -/
def Action.bound? : Action → Option String
  | .letIn name _ => some name
  | .provide _ _ _ => none

namespace Rtl

/-- Items in which no module is instantiated, with the names they declare in some order. -/
structure Names (items : List Item) (names : List String) : Prop where
  perm : (items.filterMap Item.name?).Perm names
  instances : items.filterMap Item.instance? = []

namespace Names

variable {items items' : List Item} {names names' : List String}

theorem append (h : Names items names) (h' : Names items' names') :
    Names (items ++ items') (names ++ names') where
  perm := by rw [List.filterMap_append]; exact h.perm.append h'.perm
  instances := by rw [List.filterMap_append, h.instances, h'.instances, List.append_nil]

theorem of_perm (h : Names items names) (hperm : names.Perm names') : Names items names' :=
  ⟨h.perm.trans hperm, h.instances⟩

theorem of_declares {b : Body} (h : b.Declares names []) (hitems : b = .ok items) :
    Names items names :=
  ⟨.of_eq (h items hitems).1, (h items hitems).2⟩

end Names

end Rtl

/-- The wires of conversions are declared under their names. -/
theorem names_declareCasts {s t : LoweringState} {items : List Item}
    (h : Returns Lowering.declareCasts s items t) :
    Names items (s.pending.map CastWire.name) :=
  .of_declares (join_map_singleton fun _ => net) (returns_declareCasts h).1

namespace StagePlan

variable {p : StagePlan} {indexWidth : Nat}

/-- Between two states all conversions met have been declared, and they are numbered. -/
structure Converts (s t : LoweringState) (count : Nat) : Prop where
  pending : t.pending = []
  castCount : t.castCount = s.castCount + count

/-- What is lowered and then declared. -/
theorem names_casts {r s t : LoweringState} {wires : List CastWire} {items : List Item}
    (hadds : Adds r s wires) (hpending : r.pending = [])
    (h : Returns Lowering.declareCasts s items t) :
    Converts r t wires.length ∧
      Names items ((List.range' r.castCount wires.length).map Lowering.castName) := by
  have hnames := names_declareCasts h
  rw [hadds.pending, hpending, List.nil_append, hadds.names] at hnames
  refine ⟨⟨?_, ?_⟩, hnames⟩
  · rw [(returns_declareCasts h).2]
  · rw [(returns_declareCasts h).2]
    exact hadds.count

/-- Of two bodies one after the other the conversions of the first one are numbered first. -/
theorem Converts.join {r s t : LoweringState} {count count' : Nat} {casts more : List Item}
    (hfirst : Converts r s count) (hrest : Converts s t count') (bound : List String)
    (hcasts : Names casts ((List.range' r.castCount count).map Lowering.castName))
    (hmore : Names more (bound ++ (List.range' s.castCount count').map Lowering.castName)) :
    Converts r t (count + count') ∧ Names (casts ++ more)
      (bound ++ (List.range' r.castCount (count + count')).map Lowering.castName) := by
  refine ⟨⟨hrest.pending, by rw [hrest.castCount, hfirst.castCount, Nat.add_assoc]⟩, ?_⟩
  refine (hcasts.append hmore).of_perm ?_
  rw [hfirst.castCount, ← List.range'_append_1, List.map_append, ← List.append_assoc,
    ← List.append_assoc]
  exact List.perm_append_comm.append_right _

/-- What is lowered for a store and then declared. -/
theorem names_store {r r₁ r₂ r₃ : LoweringState} {stencil : String} {args : List Expr}
    {value : Expr} {x : Rtl.Expr} {l : Location} {casts : List Item} (hpending : r.pending = [])
    (hx : Returns (p.scope.lower value) r x r₁)
    (hl : Returns (p.scope.locate stencil args (p.scope.coordinates args)) r₁ l r₂)
    (hcasts : Returns Lowering.declareCasts r₂ casts r₃) : ∃ count, Converts r r₃ count ∧
      Names casts ((List.range' r.castCount count).map Lowering.castName) := by
  rcases p.scope.lower_returns (V := Unit) value r r₁ x hx with ⟨wires, hadds, _⟩
  rcases p.scope.locate_returns (V := Unit)
    (fun cs t' => p.scope.coordinates_returns args r₁ t' cs) hl with ⟨_, _, wires', hadds', _⟩
  exact ⟨_, names_casts (hadds.trans hadds') hpending hcasts⟩

/-- The actions of a body declare what they bind and the conversions they need. -/
theorem Lowers.names {actions : List Action} {k : Nat} {r t : LoweringState}
    {items : List Item} {stored : List StoredElement}
    (h : p.Lowers indexWidth k actions r items stored t) (hpending : r.pending = []) :
    ∃ count, Converts r t count ∧ Names items (actions.filterMap Action.bound?
      ++ (List.range' r.castCount count).map Lowering.castName) := by
  induction h with
  | nil => exact ⟨0, ⟨hpending, rfl⟩, .nil, rfl⟩
  | @letIn k name value rest r r₁ r₂ t x casts wire items stored hx hcasts hwire _ ih =>
      rcases p.scope.lower_returns (V := Unit) value r r₁ x hx with ⟨wires, hadds, _⟩
      rcases names_casts hadds hpending hcasts with ⟨hfirst, hown⟩
      rcases ih hfirst.pending with ⟨count, hconverts, hmore⟩
      have hbound : Names wire [name] := .of_declares net hwire
      rw [List.append_assoc]
      -- The wire stands between the conversions of its value and those of the rest.
      exact ⟨_, hfirst.join hconverts (name :: rest.filterMap Action.bound?) hown
        (hbound.append hmore)⟩
  | @output k stencil args value rest r r₁ r₂ r₃ t x l casts items stored _ hx hl hcasts _ ih =>
      rcases names_store hpending hx hl hcasts with ⟨_, hfirst, hown⟩
      rcases ih hfirst.pending with ⟨count, hconverts, hmore⟩
      have hresult : Names (result k x (placeIndex indexWidth l.place)) [] := ⟨.nil, rfl⟩
      rw [List.append_assoc]
      exact ⟨_, hfirst.join hconverts _ hown (hresult.append hmore)⟩
  | @kept k stencil args value rest r r₁ r₂ r₃ t x l flat casts items stored _ _ hx hl _ hcasts _
      ih =>
      rcases names_store hpending hx hl hcasts with ⟨_, hfirst, hown⟩
      rcases ih hfirst.pending with ⟨count, hconverts, hmore⟩
      exact ⟨_, hfirst.join hconverts _ hown hmore⟩

/-- What a datapath declares: its stencils, what its actions bind, and conversions. -/
theorem names_datapathBody {t : LoweringState} {items : List Item}
    (h : Returns p.datapathBody .initial items t) : Names items (p.stencils.map LocalStencil.name
      ++ (p.actions.filterMap Action.bound? ++ (List.range t.castCount).map Lowering.castName)) := by
  rcases datapathBody_parts h with
    ⟨declarations, _, body, stored, drivers, commit, casts, r, s, hdeclarations, _, hlowers,
      hdrivers, hcommit, hcasts, rfl⟩
  rcases hlowers.names rfl with ⟨count, hconverts, hnames⟩
  have hadds : ∃ wires, Adds r s wires := by
    unfold commitValue at hcommit
    split at hcommit
    · rcases p.scope.lower_returns (V := Unit) _ r s commit hcommit with ⟨wires, hadds, _⟩
      exact ⟨wires, hadds⟩
    · rw [(returns_pure.mp hcommit).2]
      exact ⟨[], .refl r⟩
  rcases hadds with ⟨wires, hadds⟩
  rcases names_casts hadds hconverts.pending hcasts with ⟨hlast, hown⟩
  have hstencils : Names declarations (p.stencils.map LocalStencil.name) := by
    have hone : ∀ l : LocalStencil, Declares (do Body.wire l.name (← l.shape.dataWidth)) [l.name]
        [] := fun _ => .bind fun _ _ => wire
    exact .of_declares (join_map_singleton hone) hdeclarations
  have hsilent : Names drivers [] := by
    refine .of_declares (join_map_silent fun l => .bind fun count _ => ?_) hdrivers
    intro own hown
    have hassigns : ∀ i ∈ own, i.name? = none ∧ i.instance? = none := by
      intro i hi
      rcases exists_of_forall₂ (Fallible.mapM_ok hown).flip hi with ⟨flat, _, hflat⟩
      rcases Fallible.bind_ok.mp hflat with ⟨low, _, hpure⟩
      rw [← Except.ok.inj hpure]
      exact ⟨rfl, rfl⟩
    exact ⟨List.filterMap_eq_nil_iff.mpr fun i hi => (hassigns i hi).1,
      List.filterMap_eq_nil_iff.mpr fun i hi => (hassigns i hi).2⟩
  have hassign : Names [.assign (.ref "commit") commit] [] := ⟨.nil, rfl⟩
  refine ((((hstencils.append hnames).append hsilent).append hown).append hassign).of_perm
    (.of_eq ?_)
  -- The conversions of the condition come behind those of the actions.
  have hcount : t.castCount = count + wires.length := by
    rw [hlast.castCount, hconverts.castCount]
    exact congrArg (· + wires.length) (Nat.zero_add count)
  have hstart : r.castCount = 0 + count := hconverts.castCount
  rw [hcount, hstart, List.range_eq_range', ← List.range'_append_1, List.map_append]
  simp only [List.append_assoc, List.append_nil]
  rfl

end StagePlan

end StencilRtl
