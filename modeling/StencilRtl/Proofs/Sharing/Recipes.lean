import StencilRtl.Hardware.Top
import StencilRtl.Proofs.Rtl.Making
import StencilRtl.Proofs.Sharing.Components

/-!
# Recipes of Modules

What the modules of a design are built from.

Every module is made in the same way. Parameters and a name are put together, the library
is asked for them, and only if the name is free something is built and defined. A `Recipe`
is what goes into that: the parameters, the name, and the way to build. What the makers of
a design do before they ask is arithmetic that looks at no library. It either fails, and
then it fails in every library, or a recipe is left.

The component that asks should not matter to what is built. So the recipes here are not
those of components but those of parts, and a part is no more than the parameters it is
known by. That the maker of a component follows the recipe of a part is where the ports of
its kind are needed.

## Main definitions

* `Recipe`, `Recipe.make`: How a module is made.
* `Part`, `Part.recipe`: What a module is made for, and its recipe.
* `Part.In`: A part of a design.
* `Part.Implements`: The kind of components a part is for.
* `Netlist.Makes`: The makers of the modules of a design.
* `Follows`: A maker fails before it asks, or follows the recipe of a part.

## Theorems

* `Netlist.Makes.follows`: All makers of a uniform design follow recipes.
-/

namespace StencilRtl

/-- What is built under a name. -/
structure Built where
  header : List String
  ports : List Rtl.Port
  body : List Rtl.Item

/-- How a module is made: from parameters, under a name that may depend on the library. -/
structure Recipe where
  parameters : Parameters
  name : Library → String
  build : Making Built

/-- Ask for the module of a recipe, build it unless it is there, and return its name. -/
@[simp] def Recipe.make (r : Recipe) : Making String := do
  let name := r.name (← get).library
  if ← Making.needs name r.parameters then
    let built ← r.build
    Making.define name r.parameters built.header built.ports built.body
  return name

/-- What a module of a design is made for. -/
inductive Part where
  | slave (c : Component) (map : RegisterMap)
  | adapter (side : AdapterSide) (elem : ElemType) (extents storeExtents : List Nat)
  | queue (elem : ElemType) (extents : List Nat) (depth : Nat)
  | lineBuffer (elem : ElemType) (tile window image : List Nat)
  /-- The column stage of a line buffer that has a row stage. -/
  | columns (elem : ElemType) (tile window image : List Nat) (rows : RowStage)
    (cols : ColumnStage)
  | router (elem : ElemType) (extents : List Nat) (plan : DispatchPlan)
  | control (c : LoopControl)
  | datapath (p : StagePlan)
  | assembly (elem : ElemType) (extents : List Nat) (writes : Nat)
  | stage (c : Component) (p : StagePlan)

/-- An adapter for the windows of some shape. -/
def Component.adapterOf (inner : Shape) : AdapterSide → Component
  | .inward =>
      ⟨"", .adapter .inward, [(startPort, .bit), ("data_in", inner.withKind .busStream)],
        [(donePort, .bit), ("data_out", inner)]⟩
  | .outward =>
      ⟨"", .adapter .outward, [(startPort, .bit), ("data_in", inner)],
        [(donePort, .bit), ("data_out", inner.withKind .busStream)]⟩

/-- A block that takes streams of one shape and gives streams of another one. -/
def Component.between (kind : ComponentKind) (tile window : Shape) : Component :=
  ⟨"", kind, [("in", tile)], [("out", window)]⟩

/-- A router for the windows of some shape. -/
def Component.routerOf (shape : Shape) (plan : DispatchPlan) : Component :=
  ⟨"", .dispatch plan, [(startPort, .bit), ("in", shape)],
    (donePort, .bit) :: plan.consumers.zipIdx.map fun entry => (s!"out_{entry.2}", shape)⟩

/-- The name of a line buffer. -/
def LineBuffer.nameOf (elem : ElemType) (tile window image : List Nat) : String :=
  let shape := Shape.stream elem tile
  s!"LineBuffer_{shape.typeName}_to_{Shape.joined window}_{Shape.joined image}"

namespace Part

/-- What the module of a part is built from. -/
@[simp] def parameters : Part → Parameters
  | .slave c map => .slaveInterface map.entries (SlaveInterface.doneInputs c)
  | .adapter side elem extents storeExtents => .adapter side elem extents storeExtents
  | .queue elem extents depth => .queue elem extents depth
  | .lineBuffer elem tile window image => .lineBuffer elem tile window image
  | .columns elem tile window image _ _ => .lineBuffer elem tile window image
  | .router elem extents plan => .dispatch elem extents plan
  | .control c => .loopControl c
  | .datapath p => .stage p
  | .assembly elem extents writes => .assembly elem extents writes
  | .stage _ p => .stage p

/-- The name of the module of a part in a library. -/
@[simp] def moduleName (l : Library) : Part → String
  | .slave _ _ => "SlaveIf"
  | .adapter side elem extents storeExtents =>
      s!"IO_{side.tag}_{(Shape.stream elem extents).typeName}_{Shape.joined storeExtents}"
  | .queue elem extents depth => s!"FIFO_{(Shape.stream elem extents).typeName}_{depth}"
  | .lineBuffer elem tile window image => LineBuffer.nameOf elem tile window image
  | .columns elem tile window image _ _ => LineBuffer.nameOf elem tile window image ++ "_1D"
  | .router elem extents plan =>
      let number := l.numberOf (.dispatch elem extents plan)
      s!"Dispatch_{(Shape.stream elem extents).typeName}_#{number}"
  | .control c => c.moduleName l
  | .datapath p => p.datapathName
  | .assembly elem extents writes => AssemblyPlan.moduleName ⟨.stream elem extents, writes⟩
  | .stage _ p => p.moduleName

/-- The ports of the module of a part. -/
def ports : Part → Fallible (List Rtl.Port)
  | .slave c _ => c.modulePorts
  | .adapter side elem extents storeExtents =>
      (Component.adapterOf ((Shape.stream elem extents).withStoreExtents storeExtents)
        side).modulePorts
  | .queue elem extents depth =>
      (Component.between (.queue depth) (.stream elem extents)
        (.stream elem extents)).modulePorts
  | .lineBuffer elem tile window image =>
      (Component.between (.lineBuffer image) (.stream elem tile)
        (.stream elem window)).modulePorts
  | .columns elem _ _ _ rows cols => do
      let slicePorts ← Rtl.Port.ofShape "in" (LineBuffer.sliceShape elem rows) .input
      let windowPorts ← Rtl.Port.ofShape "out" (LineBuffer.windowShape elem rows cols) .output
      return Rtl.Port.common ++ slicePorts ++ windowPorts
  | .router elem extents plan => (Component.routerOf (.stream elem extents) plan).modulePorts
  | .control c => c.ports
  | .datapath p => p.datapathPorts
  | .assembly elem extents writes => AssemblyPlan.ports ⟨.stream elem extents, writes⟩
  | .stage c _ => c.modulePorts

/-- Build the module of a part. -/
@[simp] def build : Part → Making Built
  | .slave c map => do
      let registers := map.entries
      let dones := SlaveInterface.doneInputs c
      SlaveInterface.checkParameters c registers
      let ports ← c.modulePorts
      let body ← SlaveInterface.body registers dones
      return ⟨SlaveInterface.header registers dones, ports, body⟩
  | .adapter side elem extents storeExtents => do
      let inner := (Shape.stream elem extents).withStoreExtents storeExtents
      let ports ← (Component.adapterOf inner side).modulePorts
      let width ← inner.dataWidth
      let counters ← Adapter.counters (← Scan.ofShape inner)
      let body ← Adapter.body side counters width
      let header :=
        s!"Stream adapter ({side.word}) for {inner.text}, store extents [{listed storeExtents}]"
      return ⟨[header], ports, body⟩
  | .queue elem extents depth => do
      let shape := Shape.stream elem extents
      let g ← FifoGeometry.ofDepth depth
      let ports ← (Component.between (.queue depth) shape shape).modulePorts
      let body ← Queue.body g (← shape.dataWidth)
      return ⟨[s!"FIFO of depth {depth} carrying {shape.text}"], ports, body⟩
  | .lineBuffer elem tile window image => do
      let shape := Shape.stream elem tile
      let plan ← LineBufferPlan.ofShapes tile window image
      let columns ← plan.columnStage
      let c := Component.between (.lineBuffer image) shape (.stream elem window)
      let header :=
        s!"Line buffer from {shape.text} to {(Shape.stream elem window).text} over [{listed image}]"
      match ← plan.rowStage with
      | none =>
          let ports ← c.modulePorts
          let body ← columns.body elem.bits
          return ⟨[header], ports, body⟩
      | some rows =>
          let columnName ← LineBuffer.makeColumns (LineBuffer.nameOf elem tile window image)
            (.lineBuffer elem tile window image) elem rows columns
          let ports ← c.modulePorts
          let body ← LineBuffer.rowBody columnName elem rows columns
          return ⟨[header], ports, body⟩
  | .columns elem tile window image rows cols => do
      let slicePorts ← Rtl.Port.ofShape "in" (LineBuffer.sliceShape elem rows) .input
      let windowPorts ← Rtl.Port.ofShape "out" (LineBuffer.windowShape elem rows cols) .output
      let body ← cols.body elem.bits
      return ⟨[s!"Column stage of {LineBuffer.nameOf elem tile window image}"],
        Rtl.Port.common ++ slicePorts ++ windowPorts, body⟩
  | .router elem extents plan => do
      let shape := Shape.stream elem extents
      let ports ← (Component.routerOf shape plan).modulePorts
      let body ← plan.body (← plan.counters)
      Making.warn plan.warnings
      return ⟨plan.header shape, ports, body⟩
  | .control c => do
      let ports ← c.ports
      let body ← c.body
      return ⟨← c.header, ports, body⟩
  | .datapath p => do
      let ports ← p.datapathPorts
      let body ← (p.datapathBody.run.run .initial).1
      return ⟨[s!"Datapath of {p.producer}: {p.actions.length} action(s)"], ports, body⟩
  | .assembly elem extents writes => do
      let a : AssemblyPlan := ⟨.stream elem extents, writes⟩
      let ports ← a.ports
      let body ← a.body
      return ⟨[s!"Output assembly of {a.shape.text}, {writes} result(s) per load"], ports, body⟩
  | .stage c p => do
      let controlName ← p.control.make
      let datapathName ← p.makeDatapath
      let writerName ← p.writer.make
      let ports ← c.modulePorts
      let body ← p.body controlName datapathName writerName
      return ⟨p.header, ports, body⟩

/-- How the module of a part is made. -/
@[simp] def recipe (κ : Part) : Recipe := ⟨κ.parameters, κ.moduleName, κ.build⟩

/-- A part of a design. Of most parts nothing is asked, since whoever asks for them gets the
    same. Slave interfaces and stages are told by their components, and so are the controllers
    and datapaths of stages. -/
def In (n : Netlist) : Part → Prop
  | .slave c map => c ∈ n.components ∧ c.kind = .slaveInterface ∧ map = n.registers
  | .columns _ tile window image rows cols => ∃ plan,
      LineBufferPlan.ofShapes tile window image = .ok plan ∧ plan.rowStage = .ok (some rows) ∧
        plan.columnStage = .ok cols
  | .control c => ∃ d ∈ n.components, ∃ p, d.kind = .stage p ∧ c = p.control
  | .datapath p => ∃ c ∈ n.components, c.kind = .stage p
  | .stage c p => c ∈ n.components ∧ c.kind = .stage p
  | _ => True

end Part

/-- A part that the components of a kind are made for. -/
inductive Part.Implements : Part → ComponentKind → Prop
  | slave (c : Component) (map : RegisterMap) : Implements (.slave c map) .slaveInterface
  | adapter (side : AdapterSide) (elem : ElemType) (extents storeExtents : List Nat) :
      Implements (.adapter side elem extents storeExtents) (.adapter side)
  | queue (elem : ElemType) (extents : List Nat) (depth : Nat) :
      Implements (.queue elem extents depth) (.queue depth)
  | lineBuffer (elem : ElemType) (tile window image : List Nat) :
      Implements (.lineBuffer elem tile window image) (.lineBuffer image)
  | router (elem : ElemType) (extents : List Nat) (plan : DispatchPlan) :
      Implements (.router elem extents plan) (.dispatch plan)
  | stage (c : Component) (p : StagePlan) : Implements (.stage c p) (.stage p)

/-- A part tells the kind of the components that are made for it. -/
theorem Part.Implements.unique {κ : Part} {kind kind' : ComponentKind} (h : κ.Implements kind)
    (h' : κ.Implements kind') : kind = kind' := by
  cases h <;> cases h' <;> rfl

/-- The makers of the modules of a design: those of its components, and those of the modules
    inside stages and line buffers. -/
inductive Netlist.Makes (n : Netlist) : Making String → Prop
  | component (index : Nat) : Makes n (n.makeComponent index)
  | control {c : Component} {p : StagePlan} (hc : c ∈ n.components) (hkind : c.kind = .stage p) :
      Makes n p.control.make
  | datapath {c : Component} {p : StagePlan} (hc : c ∈ n.components)
      (hkind : c.kind = .stage p) : Makes n p.makeDatapath
  | assembly {c : Component} {p : StagePlan} (hc : c ∈ n.components)
      (hkind : c.kind = .stage p) : Makes n p.writer.make
  | columns {c : Component} {image : List Nat} {tile window : Shape} {plan : LineBufferPlan}
      {rows : RowStage} {columns : ColumnStage} (hc : c ∈ n.components)
      (hkind : c.kind = .lineBuffer image) (htile : c.portShape "in" = .ok tile)
      (hwindow : c.portShape "out" = .ok window)
      (hplan : LineBufferPlan.ofShapes tile.extents window.extents image = .ok plan)
      (hrows : plan.rowStage = .ok (some rows)) (hcolumns : plan.columnStage = .ok columns) :
      Makes n (LineBuffer.makeColumns
        s!"LineBuffer_{tile.typeName}_to_{Shape.joined window.extents}_{Shape.joined image}"
        (.lineBuffer tile.elem tile.extents window.extents image) tile.elem rows columns)

/-- A maker fails before it asks for anything, in whatever library. -/
def Refuses (m : Making String) : Prop := ∃ f, ∀ w, m.run.run w = (.error f, w)

theorem Refuses.not_returns {m : Making String} {w w' : Workshop} {name : String}
    (h : Refuses m) : ¬Returns m w name w' := by
  rcases h with ⟨f, hrun⟩
  exact fun hreturns => absurd (congrArg Prod.fst ((hrun w).symm.trans hreturns)) (by simp)

/-- A maker fails before it asks for anything, or it follows the recipe of a part. -/
def Follows (m : Making String) (κ : Part) : Prop := Refuses m ∨ m = κ.recipe.make

section

variable {σ α β : Type} {x : Fallible α}

/-- A computation that returns may be left out. -/
theorem lift_ok_bind {a : α} (h : x = .ok a) {f : α → ExceptT Failure (StateM σ) β} :
    (liftM x : ExceptT Failure (StateM σ) α) >>= f = f a := by
  rw [h]
  rfl

/-- What does not look at the state does not have to be given it. -/
theorem get_bind_const {m : ExceptT Failure (StateM σ) β} :
    ((get : ExceptT Failure (StateM σ) σ) >>= fun _ => m) = m := rfl

end

/-- A computation in front of a maker makes it refuse, or may be left out. -/
theorem Follows.lift_bind {α : Type} {κ : Part} {x : Fallible α} {f : α → Making String}
    (hf : ∀ a, x = .ok a → Follows (f a) κ) : Follows (liftM x >>= f) κ := by
  cases x with
  | error e => exact .inl ⟨e, fun _ => rfl⟩
  | ok a => exact lift_ok_bind (x := .ok a) rfl ▸ hf a rfl

namespace Shape

/-- Two shapes that show the same in a module. -/
structure Alike (s t : Shape) : Prop where
  kind : s.kind = t.kind
  elem : s.elem = t.elem
  extents : s.extents = t.extents

namespace Alike

variable {s t : Shape} (h : Alike s t)

include h

theorem ofShape_eq (name : String) (direction : Direction) :
    Rtl.Port.ofShape name s direction = Rtl.Port.ofShape name t direction := by
  cases s; cases t
  rcases h with ⟨rfl, rfl, rfl⟩
  rfl

theorem text_eq : s.text = t.text := by
  cases s; cases t
  rcases h with ⟨rfl, rfl, rfl⟩
  rfl

theorem dataWidth_eq : s.dataWidth = t.dataWidth := by
  cases s; cases t
  rcases h with ⟨rfl, rfl, rfl⟩
  rfl

end Alike

theorem Alike.refl (s : Shape) : Alike s s := ⟨rfl, rfl, rfl⟩

theorem alike_stream {s : Shape} (h : s.kind = .stream) : Alike s (.stream s.elem s.extents) :=
  ⟨h, rfl, rfl⟩

end Shape

/-- Two ports that show the same in a module. -/
def AlikePorts (p q : String × Shape × Direction) : Prop :=
  p.1 = q.1 ∧ p.2.1.Alike q.2.1 ∧ p.2.2 = q.2.2

theorem Shape.Alike.port {s t : Shape} (h : s.Alike t) {name : String} {direction : Direction} :
    AlikePorts (name, s, direction) (name, t, direction) := ⟨rfl, h, rfl⟩

theorem AlikePorts.mapM_ofShape {ps qs : List (String × Shape × Direction)}
    (h : List.Forall₂ AlikePorts ps qs) :
    (ps.mapM fun p => Rtl.Port.ofShape p.1 p.2.1 p.2.2)
      = qs.mapM fun p => Rtl.Port.ofShape p.1 p.2.1 p.2.2 := by
  induction h with
  | nil => rfl
  | cons hhead _ ih =>
      rw [List.mapM_cons, List.mapM_cons, ih, hhead.1, hhead.2.1.ofShape_eq, hhead.2.2]

/-- Components whose ports show the same have the same ports in their modules. -/
theorem Component.modulePorts_eq {c d : Component} (h : List.Forall₂ AlikePorts c.ports d.ports) :
    c.modulePorts = d.modulePorts :=
  congrArg (fun own : Fallible (List (List Rtl.Port)) => do
    return Rtl.Port.common ++ (← own).flatten) (AlikePorts.mapM_ofShape h)

theorem SlaveInterface.follows_make (c : Component) (map : RegisterMap) :
    Follows (make c map) (.slave c map) := by
  refine .lift_bind fun _ _ => .inr ?_
  simp only [Recipe.make, Part.recipe, Part.parameters, Part.moduleName, Part.build,
    get_bind_const, bind_assoc, pure_bind]

/-- Of an adapter only its side and the windows on its inner side matter. -/
theorem Adapter.follows_make {c : Component} {side : AdapterSide} {inner : Shape}
    (hkind : inner.kind = .stream) (hinner : c.portShape side.innerPort = .ok inner)
    (hports : List.Forall₂ AlikePorts c.ports (Component.adapterOf
      ((Shape.stream inner.elem inner.extents).withStoreExtents inner.storeExtents)
      side).ports) :
    Follows (make c side) (.adapter side inner.elem inner.extents inner.storeExtents) := by
  refine .lift_bind fun shape hshape => .inr ?_
  rcases Except.ok.inj (hinner.symm.trans hshape) with rfl
  have hscan : Scan.ofShape inner = Scan.ofShape
      ((Shape.stream inner.elem inner.extents).withStoreExtents inner.storeExtents) := rfl
  have halike : inner.Alike
      ((Shape.stream inner.elem inner.extents).withStoreExtents inner.storeExtents) :=
    ⟨hkind, rfl, rfl⟩
  simp only [Recipe.make, Part.recipe, Part.parameters, Part.moduleName, Part.build,
    get_bind_const, bind_assoc, pure_bind, Component.modulePorts_eq hports, hscan,
    halike.text_eq, halike.dataWidth_eq]
  rfl

theorem Queue.follows_make {c : Component} {shape : Shape} {depth : Nat}
    (hkind : shape.kind = .stream) (hin : c.portShape "in" = .ok shape)
    (hports : List.Forall₂ AlikePorts c.ports (Component.between (.queue depth)
      (.stream shape.elem shape.extents) (.stream shape.elem shape.extents)).ports) :
    Follows (make c depth) (.queue shape.elem shape.extents depth) := by
  refine .lift_bind fun s hs => .lift_bind fun g hg => .inr ?_
  rcases Except.ok.inj (hin.symm.trans hs) with rfl
  have halike := Shape.alike_stream hkind
  simp only [Recipe.make, Part.recipe, Part.parameters, Part.moduleName, Part.build,
    get_bind_const, bind_assoc, pure_bind, lift_ok_bind hg,
    Component.modulePorts_eq hports, halike.text_eq, halike.dataWidth_eq]
  rfl

theorem LineBuffer.follows_make {c : Component} {tile window : Shape} {image : List Nat}
    (htile : tile.kind = .stream) (hwindow : window.kind = .stream)
    (hin : c.portShape "in" = .ok tile) (hout : c.portShape "out" = .ok window)
    (hports : List.Forall₂ AlikePorts c.ports (Component.between (.lineBuffer image)
      (.stream tile.elem tile.extents) (.stream window.elem window.extents)).ports) :
    Follows (make c image) (.lineBuffer tile.elem tile.extents window.extents image) := by
  refine .lift_bind fun s hs => .lift_bind fun t ht => ?_
  rcases Except.ok.inj (hin.symm.trans hs) with rfl
  rcases Except.ok.inj (hout.symm.trans ht) with rfl
  split
  · exact .inl ⟨_, fun _ => rfl⟩
  next helem =>
  refine .lift_bind fun plan hplan => .inr ?_
  -- A recipe has one type of elements, and from here on the two streams share theirs.
  rw [← not_not.mp helem] at hports
  have halike := Shape.alike_stream htile
  have halike' := Shape.alike_stream hwindow
  rw [← not_not.mp helem] at halike'
  have hname : (Shape.stream tile.elem tile.extents).typeName = tile.typeName := rfl
  simp only [Recipe.make, Part.recipe, Part.parameters, Part.moduleName, Part.build,
    LineBuffer.nameOf, get_bind_const, bind_assoc, lift_ok_bind hplan,
    Component.modulePorts_eq hports, halike.text_eq, halike'.text_eq, hname]
  refine bind_congr fun needed => ?_
  split
  · refine bind_congr fun cols => bind_congr fun rows => ?_
    cases rows with
    | none => simp only [bind_assoc, pure_bind]
    | some rows => simp only [bind_assoc, pure_bind]
  · rfl

/-- A line buffer between streams of different elements is not made. -/
theorem LineBuffer.refuses_make {c : Component} {tile window : Shape} {image : List Nat}
    (hin : c.portShape "in" = .ok tile) (hout : c.portShape "out" = .ok window)
    (helem : tile.elem ≠ window.elem) : Refuses (make c image) := by
  rw [make, lift_ok_bind hin, lift_ok_bind hout, if_pos helem]
  exact ⟨_, fun _ => rfl⟩

/-- Building a column stage comes before asking for it. -/
theorem LineBuffer.follows_makeColumns (elem : ElemType) (tile window image : List Nat)
    (rows : RowStage) (cols : ColumnStage) :
    Follows (makeColumns (nameOf elem tile window image) (.lineBuffer elem tile window image)
      elem rows cols) (.columns elem tile window image rows cols) := by
  refine .lift_bind fun slicePorts hslice => .lift_bind fun windowPorts hwindow =>
    .lift_bind fun body hbody => .inr ?_
  simp only [Recipe.make, Part.recipe, Part.parameters, Part.moduleName, Part.build,
    get_bind_const, pure_bind, lift_ok_bind hslice, lift_ok_bind hwindow, lift_ok_bind hbody]
  exact Making.define_bind_eq

theorem DispatchPlan.follows_make {c : Component} {shape : Shape} {plan : DispatchPlan}
    (hkind : shape.kind = .stream) (hin : c.portShape "in" = .ok shape)
    (hports : List.Forall₂ AlikePorts c.ports (Component.routerOf
      (.stream shape.elem shape.extents) plan).ports) :
    Follows (plan.make c) (.router shape.elem shape.extents plan) := by
  refine .lift_bind fun s hs => .lift_bind fun _ _ => .inr ?_
  rcases Except.ok.inj (hin.symm.trans hs) with rfl
  have halike := Shape.alike_stream hkind
  simp only [Recipe.make, Part.recipe, Part.parameters, Part.moduleName, Part.build, bind_assoc,
    pure_bind, Component.modulePorts_eq hports, halike.text_eq, Making.numberOf,
    DispatchPlan.header]
  rfl

theorem LoopControl.follows_make (c : LoopControl) : Follows c.make (.control c) := by
  refine .inr ?_
  simp only [LoopControl.make, Recipe.make, Part.recipe, Part.parameters, Part.moduleName,
    Part.build, bind_assoc, pure_bind]

/-- Building a datapath comes before asking for it. -/
theorem StagePlan.follows_makeDatapath (p : StagePlan) : Follows p.makeDatapath (.datapath p) := by
  refine .lift_bind fun ports hports => .lift_bind fun body hbody => .inr ?_
  simp only [Recipe.make, Part.recipe, Part.parameters, Part.moduleName, Part.build,
    get_bind_const, pure_bind, lift_ok_bind hports, lift_ok_bind hbody]
  exact Making.define_bind_eq

theorem AssemblyPlan.follows_make {a : AssemblyPlan} (hkind : a.shape.kind = .stream) :
    Follows a.make (.assembly a.shape.elem a.shape.extents a.writes) := by
  rcases a with ⟨⟨kind, elem, extents, storeExtents, fifoDepth⟩, writes⟩
  rcases hkind with rfl
  refine .inr ?_
  simp only [Recipe.make, Part.recipe, Part.parameters, Part.moduleName,
    Part.build, get_bind_const, bind_assoc, pure_bind]
  rfl

theorem StagePlan.follows_make (c : Component) (p : StagePlan) :
    Follows (p.make c) (.stage c p) := by
  refine .lift_bind fun _ _ => .inr ?_
  simp only [Recipe.make, Part.recipe, Part.parameters, Part.moduleName, Part.build,
    get_bind_const, bind_assoc, pure_bind]

theorem Follows.part {n : Netlist} {m : Making String} {κ : Part} (h : Follows m κ)
    (hκ : κ.In n) : Refuses m ∨ ∃ κ : Part, κ.In n ∧ m = κ.recipe.make :=
  h.imp_right fun h => ⟨κ, hκ, h⟩

/-- A maker fails at once, or it follows the recipe of a part of a design that is for the kind of a
component and has its ports. -/
def MakesFor (n : Netlist) (m : Making String) (c : Component) : Prop :=
  Refuses m ∨ ∃ κ : Part, κ.In n ∧ κ.Implements c.kind ∧ κ.ports = c.modulePorts ∧
    m = κ.recipe.make

theorem MakesFor.part {n : Netlist} {m : Making String} {c : Component} (h : MakesFor n m c) :
    Refuses m ∨ ∃ κ : Part, κ.In n ∧ m = κ.recipe.make :=
  h.imp_right fun ⟨κ, hκ, _, _, hmake⟩ => ⟨κ, hκ, hmake⟩

theorem Follows.makesFor {n : Netlist} {m : Making String} {c : Component} {κ : Part}
    (h : Follows m κ) (hκ : κ.In n) (hkind : κ.Implements c.kind)
    (hports : κ.ports = c.modulePorts) : MakesFor n m c :=
  h.imp_right fun h => ⟨κ, hκ, hkind, hports, h⟩

/-- It may follow the recipe of a part whose ports only show the same. -/
theorem MakesFor.of_alike {n : Netlist} {m : Making String} {c d : Component} {κ : Part}
    (h : List.Forall₂ AlikePorts c.ports d.ports → Follows m κ)
    (halike : List.Forall₂ AlikePorts c.ports d.ports) (hκ : κ.In n)
    (hkind : κ.Implements c.kind) (hports : κ.ports = d.modulePorts) : MakesFor n m c :=
  (h halike).makesFor hκ hkind (hports.trans (Component.modulePorts_eq halike).symm)

namespace Component.Standard

variable {c : Component}

/-- The ports of its kind are all that the maker of a component needs. -/
theorem follows {n : Netlist} {index : Nat} (h : c.Standard)
    (hindex : n.component index = .ok c) : MakesFor n (n.makeComponent index) c := by
  have hc := List.mem_of_getElem? (Netlist.component_ok.mp hindex)
  rw [Netlist.makeComponent, lift_ok_bind hindex]
  cases h with
  | slave hkind =>
      rw [hkind]
      exact (SlaveInterface.follows_make c n.registers).makesFor ⟨hc, hkind, rfl⟩
        (hkind ▸ .slave c n.registers) rfl
  | @inward name shape hshape =>
      have hkind : (shape.withKind .stream).kind = .stream := rfl
      refine .of_alike (Adapter.follows_make hkind rfl) ?_ trivial (.adapter ..) rfl
      have hinner : (shape.withKind .stream).Alike
          ((Shape.stream shape.elem shape.extents).withStoreExtents shape.storeExtents) :=
        ⟨rfl, rfl, rfl⟩
      have houter : shape.Alike (((Shape.stream shape.elem
          shape.extents).withStoreExtents shape.storeExtents).withKind .busStream) :=
        ⟨hshape, rfl, rfl⟩
      exact .cons (Shape.Alike.refl .bit).port (.cons houter.port
        (.cons (Shape.Alike.refl .bit).port (.cons hinner.port .nil)))
  | @outward name shape hshape =>
      refine .of_alike (Adapter.follows_make hshape rfl) ?_ trivial (.adapter ..) rfl
      have hinner : shape.Alike
          ((Shape.stream shape.elem shape.extents).withStoreExtents shape.storeExtents) :=
        ⟨hshape, rfl, rfl⟩
      have houter : (shape.withKind .busStream).Alike (((Shape.stream shape.elem
          shape.extents).withStoreExtents shape.storeExtents).withKind .busStream) :=
        ⟨rfl, rfl, rfl⟩
      exact .cons (Shape.Alike.refl .bit).port (.cons hinner.port
        (.cons (Shape.Alike.refl .bit).port (.cons houter.port .nil)))
  | queue hshape =>
      refine .of_alike (Queue.follows_make hshape rfl) ?_ trivial (.queue ..) rfl
      exact .cons (Shape.alike_stream hshape).port (.cons (Shape.alike_stream hshape).port .nil)
  | @lineBuffer name image tile window htile hwindow =>
      -- Where the elements differ, no line buffer can be made at all.
      rcases ne_or_eq tile.elem window.elem with helem | helem
      · exact .inl (LineBuffer.refuses_make rfl rfl helem)
      refine .of_alike (LineBuffer.follows_make htile hwindow rfl rfl) ?_ trivial
        (.lineBuffer ..) (by rw [← helem]; rfl)
      exact .cons (Shape.alike_stream htile).port (.cons (Shape.alike_stream hwindow).port .nil)
  -- The outputs of a router are numbered and share one shape.
  | @router name plan shape hshape =>
      have hin : Component.portShape ⟨name, .dispatch plan, [(startPort, .bit), ("in", shape)],
          (donePort, .bit) :: plan.consumers.zipIdx.map fun entry => (s!"out_{entry.2}", shape)⟩
          "in" = .ok shape := rfl
      refine .of_alike (DispatchPlan.follows_make hshape hin) ?_ trivial (.router ..) rfl
      simp only [Component.ports, Component.routerOf, List.map_cons, List.map_nil, List.map_map]
      refine .cons (Shape.Alike.refl .bit).port (.cons (Shape.alike_stream hshape).port
        (.cons (Shape.Alike.refl .bit).port ?_))
      rw [List.forall₂_map_left_iff, List.forall₂_map_right_iff, List.forall₂_same]
      exact fun _ _ => (Shape.alike_stream hshape).port
  | @stage c plan hkind _ _ =>
      rw [hkind]
      exact (StagePlan.follows_make c plan).makesFor ⟨hc, hkind⟩ (hkind ▸ .stage c plan) rfl

end Component.Standard

/-- All makers of a uniform design follow recipes. -/
theorem Netlist.Makes.follows {n : Netlist} (hn : n.Uniform) {m : Making String}
    (hm : n.Makes m) : Refuses m ∨ ∃ κ : Part, κ.In n ∧ m = κ.recipe.make := by
  cases hm with
  | component index =>
      cases hindex : n.component index with
      | error e =>
          refine .inl ⟨e, fun _ => ?_⟩
          rw [makeComponent, hindex]
          rfl
      | ok c =>
          have hc := List.mem_of_getElem? (Netlist.component_ok.mp hindex)
          exact ((hn.standard c hc).follows hindex).part
  | control hc hkind => exact (LoopControl.follows_make _).part ⟨_, hc, _, hkind, rfl⟩
  | datapath hc hkind => exact (StagePlan.follows_makeDatapath _).part ⟨_, hc, hkind⟩
  | assembly hc hkind =>
      exact (AssemblyPlan.follows_make ((hn.standard _ hc).of_stage hkind).2).part trivial
  | columns _ _ _ _ hplan hrows hcolumns =>
      exact (LineBuffer.follows_makeColumns _ _ _ _ _ _).part ⟨_, hplan, hrows, hcolumns⟩

end StencilRtl
