import StencilRtl.Proofs.LoopNest.Translation
import StencilRtl.Proofs.Sharing.Libraries

/-!
# Reuse of Modules

A module that is reused is the one that would be built.

What a maker comes to is settled by the library it leaves behind. Asked again, in any library
that goes on from there, it returns what it returned and defines nothing. Most modules are
built without a look at the library, so nothing has to be said of them. A stage asks for its
three modules first and a line buffer for its column stage, and what they are told about
those stays true because the makers of those are settled themselves.

With this, a definition found under the name of a part was made for the part, and building
for the part again where the definition was made, in the library of that time, gives that
definition.

## Main definitions

* `Fixed`: A computation that does not care about the library.
* `Settles`: A computation that returns the same in all libraries to come.
* `Netlist.Reached`: What makers of a design lead to.
* `Part.Sound`: Whoever shares a module would have built it.
* `Netlist.Shares`: A maker shares soundly while a design is made.

## Theorems

* `Library.Grown.make`: After a part has been made the library has it.
* `Settles.make`: A maker settles if what it builds is settled.
* `Part.settles`: All parts of a design are built so.
* `Netlist.grown_of_reached`: Libraries of a design consist of its parts.
* `Netlist.reached_of_place`: The top module is made by makers of the design.
* `Netlist.shares_of_ofKernel`: Sharing is sound in the design of a kernel.
-/

namespace StencilRtl

section

variable {α β : Type} {n : Netlist}

/-- A computation that leaves the library alone and does not care about it. -/
def Fixed (m : Making α) : Prop :=
  ∀ w a w', Returns m w a w' →
    w'.library = w.library ∧ ∀ v : Workshop, ∃ ws, Returns m v a ⟨v.library, ws⟩

/-- A computation that only makes parts, and that returns the same and makes nothing in every
    library that goes on from where it ends. -/
def Settles (n : Netlist) (m : Making α) : Prop :=
  ∀ w a w', w.library.Grown n → Returns m w a w' →
    w'.library.Grown n ∧ w.library.Starts w'.library ∧
      ∀ l ws, l.Grown n → w'.library.Starts l → ∃ ws', Returns m ⟨l, ws⟩ a ⟨l, ws'⟩

namespace Fixed

theorem pure (a : α) : Fixed (Pure.pure a) := by
  intro w b w' h
  rcases returns_pure.mp h with ⟨rfl, rfl⟩
  exact ⟨rfl, fun v => ⟨v.warnings, returns_pure.mpr ⟨rfl, rfl⟩⟩⟩

theorem bind {m : Making α} {f : α → Making β} (hm : Fixed m) (hf : ∀ a, Fixed (f a)) :
    Fixed (m >>= f) := by
  intro w b w' h
  rcases returns_bind.mp h with ⟨a, r, ha, hb⟩
  rcases hm w a r ha with ⟨hr, hm⟩
  rcases hf a r b w' hb with ⟨hw', hf⟩
  refine ⟨hw'.trans hr, fun v => ?_⟩
  rcases hm v with ⟨ws, hreturns⟩
  rcases hf ⟨v.library, ws⟩ with ⟨ws', hreturns'⟩
  exact ⟨ws', returns_bind.mpr ⟨a, _, hreturns, hreturns'⟩⟩

theorem lift_bind {x : Fallible α} {f : α → Making β} (hf : ∀ a, Fixed (f a)) :
    Fixed (liftM x >>= f) := by
  intro w b w' h
  rcases returns_lift_bind.mp h with ⟨a, ha, hb⟩
  rcases hf a w b w' hb with ⟨hw', hf⟩
  refine ⟨hw', fun v => ?_⟩
  rcases hf v with ⟨ws, hreturns⟩
  exact ⟨ws, returns_lift_bind.mpr ⟨a, ha, hreturns⟩⟩

theorem warn (warnings : List Warning) : Fixed (Making.warn warnings) := by
  intro w u w' h
  rcases returns_modify.mp h with rfl
  exact ⟨rfl, fun v => ⟨_, returns_modify.mpr rfl⟩⟩

theorem settles {m : Making α} (h : Fixed m) : Settles n m := by
  intro w a w' hgrown hreturns
  rcases h w a w' hreturns with ⟨hw', hm⟩
  rw [hw']
  exact ⟨hgrown, .refl _, fun l ws _ _ => hm ⟨l, ws⟩⟩

end Fixed

namespace Settles

theorem bind {m : Making α} {f : α → Making β} (hm : Settles n m) (hf : ∀ a, Settles n (f a)) :
    Settles n (m >>= f) := by
  intro w b w' hgrown h
  rcases returns_bind.mp h with ⟨a, r, ha, hb⟩
  rcases hm w a r hgrown ha with ⟨hr, hstarts, hm⟩
  rcases hf a r b w' hr hb with ⟨hw', hstarts', hf⟩
  refine ⟨hw', hstarts.trans hstarts', fun l ws hl hafter => ?_⟩
  rcases hm l ws hl (hstarts'.trans hafter) with ⟨ws', hreturns⟩
  rcases hf l ws' hl hafter with ⟨ws'', hreturns'⟩
  exact ⟨ws'', returns_bind.mpr ⟨a, _, hreturns, hreturns'⟩⟩

theorem lift_bind {x : Fallible α} {f : α → Making β} (hf : ∀ a, x = .ok a → Settles n (f a)) :
    Settles n (liftM x >>= f) := by
  intro w b w' hgrown h
  rcases returns_lift_bind.mp h with ⟨a, ha, hb⟩
  rcases hf a ha w b w' hgrown hb with ⟨hw', hstarts, hf⟩
  refine ⟨hw', hstarts, fun l ws hl hafter => ?_⟩
  rcases hf l ws hl hafter with ⟨ws', hreturns⟩
  exact ⟨ws', returns_lift_bind.mpr ⟨a, ha, hreturns⟩⟩

end Settles

end

section

variable {n : Netlist} {κ : Part} {l l' : Library} {d : Definition} {w w' : Workshop}
  {name : String}

/-- Making a part comes down to asking for its name and, unless it is there, building and
    defining it. -/
theorem Recipe.returns_make {r : Recipe} : Returns r.make w name w' ↔
    name = r.name w.library ∧
      (w.library.needs name r.parameters = .ok false ∧ w' = w ∨
        w.library.needs name r.parameters = .ok true ∧ ∃ built v, Returns r.build w built v ∧
          Returns (Making.define name r.parameters built.header built.ports built.body) v ()
            w') := by
  unfold make
  rw [returns_get_bind, returns_bind]
  -- Read from left to right the steps are taken apart, from right to left put together again.
  refine ⟨?_, ?_⟩
  · rintro ⟨b, v, hneeds, h⟩
    rcases Making.returns_needs.mp hneeds with ⟨hneeds, rfl⟩
    cases b with
    | false =>
        rcases returns_pure.mp h with ⟨rfl, rfl⟩
        exact ⟨rfl, .inl ⟨hneeds, rfl⟩⟩
    | true =>
        rcases returns_bind.mp h with ⟨built, v', hbuild, h⟩
        rcases returns_bind.mp h with ⟨_, v'', hdefine, h⟩
        rcases returns_pure.mp h with ⟨rfl, rfl⟩
        exact ⟨rfl, .inr ⟨hneeds, built, v', hbuild, hdefine⟩⟩
  · rintro ⟨rfl, h⟩
    rcases h with ⟨hneeds, rfl⟩ | ⟨hneeds, built, v, hbuild, hdefine⟩
    · exact ⟨false, w', Making.returns_needs.mpr ⟨hneeds, rfl⟩, returns_pure.mpr ⟨rfl, rfl⟩⟩
    · refine ⟨true, w, Making.returns_needs.mpr ⟨hneeds, rfl⟩, ?_⟩
      exact returns_bind.mpr ⟨built, v, hbuild,
        returns_bind.mpr ⟨(), w', hdefine, returns_pure.mpr ⟨rfl, rfl⟩⟩⟩

/-- A part that is there is returned and nothing is made. -/
theorem Part.Made.returns (h : κ.Made l d) (hstarts : (l.add d).Starts l') (ws : List Warning) :
    Returns κ.recipe.make ⟨l', ws⟩ d.name ⟨l', ws⟩ := by
  refine Recipe.returns_make.mpr ⟨(h.moduleName_eq hstarts).symm, .inl ⟨?_, rfl⟩⟩
  change l'.needs d.name κ.parameters = .ok false
  rw [Library.needs, Library.find?_of_starts h.free hstarts]
  exact if_pos h.parameters

/-- Made where its definition was added, a part has that definition. -/
theorem Part.Made.defines (h : κ.Made l d) (ws : List Warning) :
    ∃ ws', Returns κ.recipe.make ⟨l, ws⟩ d.name ⟨l.add d, ws'⟩ := by
  rcases h.build ws with ⟨ws', hbuild⟩
  have hneeds : l.needs d.name κ.parameters = .ok true := by rw [Library.needs, h.free]
  have hd : (⟨d.name, κ.parameters, d.header, ⟨d.name, d.content.ports, d.content.body⟩⟩ :
      Definition) = d := by
    have hcontent : (⟨d.name, d.content.ports, d.content.body⟩ : Rtl.Module) = d.content := by
      rw [← h.content]
    rw [hcontent, ← h.parameters]
  have hdefine : Returns (Making.define d.name κ.parameters d.header d.content.ports
      d.content.body) ⟨l, ws'⟩ () ⟨l.add d, ws'⟩ :=
    Making.returns_define_iff.mpr (.inr ⟨hneeds, by rw [hd]⟩)
  exact ⟨ws', Recipe.returns_make.mpr ⟨h.name, .inr ⟨hneeds, _, _, hbuild, hdefine⟩⟩⟩

namespace Part

/-- Parts without parts inside are built without the library. -/
theorem fixed_build (hbuffer : ∀ elem tile window image, κ ≠ .lineBuffer elem tile window image)
    (hstage : ∀ c p, κ ≠ .stage c p) : Fixed κ.build := by
  cases κ with
  | lineBuffer elem tile window image => exact absurd rfl (hbuffer elem tile window image)
  | stage c p => exact absurd rfl (hstage c p)
  | router elem extents plan =>
      exact .lift_bind fun _ => .lift_bind fun _ => .lift_bind fun _ =>
        (Fixed.warn _).bind fun _ => .pure _
  | adapter =>
      exact .lift_bind fun _ => .lift_bind fun _ => .lift_bind fun _ => .lift_bind fun _ =>
        .lift_bind fun _ => .pure _
  | queue =>
      exact .lift_bind fun _ => .lift_bind fun _ => .lift_bind fun _ => .lift_bind fun _ => .pure _
  | datapath => exact .lift_bind fun _ => .lift_bind fun _ => .pure _
  | assembly => exact .lift_bind fun _ => .lift_bind fun _ => .pure _
  | _ => exact .lift_bind fun _ => .lift_bind fun _ => .lift_bind fun _ => .pure _

/-- What is made for the modules inside does not change the name: numbered parts have no parts
    inside. -/
theorem moduleName_built {built : Built} (h : Returns κ.build w built w') :
    κ.moduleName w.library = κ.moduleName w'.library := by
  refine moduleName_congr fun hκ => ?_
  have hfixed : Fixed κ.build := by
    refine fixed_build ?_ ?_
    · rintro elem tile window image rfl
      exact absurd hκ (by simp [Numbered, parameters, Parameters.sameFamily])
    · rintro c p rfl
      exact absurd hκ (by simp [Numbered, parameters, Parameters.sameFamily])
  rw [(hfixed w built w' h).1]

end Part

/-- After a part has been made the library has it. -/
theorem Library.Grown.make (hgrown : w.library.Grown n) (hn : n.Uniform) (hκ : κ.In n)
    (hbuild : Settles n κ.build) (h : Returns κ.recipe.make w name w') :
    w'.library.Grown n ∧ w.library.Starts w'.library ∧ w'.library.Has κ name := by
  rcases Recipe.returns_make.mp h with ⟨rfl, ⟨hneeds, rfl⟩ | ⟨hneeds, built, v, hbuilt, hdefine⟩⟩
  · rcases Library.found_of_needs hneeds with ⟨d, hfind, _⟩
    rcases hgrown.made_of_find hn hκ hfind with ⟨l₀, _, hstarts, hmade⟩
    exact ⟨hgrown, .refl _, l₀, d, Library.name_of_find hfind, hmade, hstarts⟩
  rcases hbuild w built v hgrown hbuilt with ⟨hv, hstarts, hagain⟩
  -- The name was asked for before the modules inside were made, and it is still the same.
  have hname : κ.recipe.name w.library = κ.moduleName v.library := Part.moduleName_built hbuilt
  rw [hname] at hdefine ⊢
  rcases Making.returns_define_iff.mp hdefine with ⟨hneeds', rfl⟩ | ⟨hneeds', rfl⟩
  · rcases Library.found_of_needs hneeds' with ⟨d, hfind, _⟩
    rcases hv.made_of_find hn hκ hfind with ⟨l₀, _, hthere, hmade⟩
    exact ⟨hv, hstarts, l₀, d, Library.name_of_find hfind, hmade, hthere⟩
  · have hfree := Library.free_of_needs hneeds'
    have hmade : κ.Made v.library ⟨κ.moduleName v.library, κ.parameters, built.header,
        ⟨κ.moduleName v.library, built.ports, built.body⟩⟩ :=
      ⟨rfl, rfl, hfree, fun hκ => hv.lacks_of_free hκ hfree, rfl,
        fun ws => hagain v.library ws hv (.refl _)⟩
    exact ⟨hv.add hκ hmade, hstarts.trans Library.starts_add, v.library, _, rfl, hmade, .refl _⟩

namespace Settles

/-- A maker settles if what it builds is settled: a part that is in the library in the end is
    returned from then on. -/
theorem make (hn : n.Uniform) (hκ : κ.In n) (hbuild : Settles n κ.build) :
    Settles n κ.recipe.make := by
  intro w name w' hgrown h
  rcases hgrown.make hn hκ hbuild h with ⟨hw', hstarts, l₀, d, rfl, hmade, hthere⟩
  exact ⟨hw', hstarts, fun l ws _ hafter => ⟨ws, hmade.returns (hthere.trans hafter) ws⟩⟩

theorem of_follows {m : Making String} (h : Follows m κ) (hκ : Settles n κ.recipe.make) :
    Settles n m := by
  rcases h with hrefuses | rfl
  · exact fun w a w' _ hreturns => absurd hreturns hrefuses.not_returns
  · exact hκ

end Settles

namespace Part

theorem settles_make (hn : n.Uniform) (hκ : κ.In n)
    (hbuffer : ∀ elem tile window image, κ ≠ .lineBuffer elem tile window image)
    (hstage : ∀ c p, κ ≠ .stage c p) : Settles n κ.recipe.make :=
  .make hn hκ (fixed_build hbuffer hstage).settles

/-- What is built for a part of a design is settled. -/
theorem settles (hn : n.Uniform) (hκ : κ.In n) : Settles n κ.build := by
  cases κ with
  | lineBuffer elem tile window image =>
      refine .lift_bind fun plan hplan => .lift_bind fun cols hcols =>
        .lift_bind fun stage? hrows => ?_
      cases stage? with
      | none => exact .lift_bind fun _ _ => .lift_bind fun _ _ => (Fixed.pure _).settles
      | some rows =>
          have hcolumns : Settles n (Part.columns elem tile window image rows cols).recipe.make :=
            settles_make hn ⟨plan, hplan, hrows, hcols⟩ (by simp) (by simp)
          exact (Settles.of_follows (LineBuffer.follows_makeColumns ..) hcolumns).bind fun _ =>
            .lift_bind fun _ _ => .lift_bind fun _ _ => (Fixed.pure _).settles
  | stage c p =>
      -- The modules inside are parts of their own, so their makers are settled already.
      have hstandard := hn.standard c hκ.1
      have hcontrol : Settles n (Part.control p.control).recipe.make :=
        settles_make hn ⟨c, hκ.1, p, hκ.2, rfl⟩ (by simp) (by simp)
      have hdatapath : Settles n (Part.datapath p).recipe.make :=
        settles_make hn ⟨c, hκ.1, hκ.2⟩ (by simp) (by simp)
      have hwriter : Settles n (Part.assembly p.writer.shape.elem p.writer.shape.extents
          p.writer.writes).recipe.make := settles_make hn trivial (by simp) (by simp)
      exact (Settles.of_follows (LoopControl.follows_make _) hcontrol).bind fun _ =>
        (Settles.of_follows (StagePlan.follows_makeDatapath _) hdatapath).bind fun _ =>
        (Settles.of_follows (AssemblyPlan.follows_make (hstandard.of_stage hκ.2).2)
          hwriter).bind fun _ =>
        .lift_bind fun _ _ => .lift_bind fun _ _ => (Fixed.pure _).settles
  | _ => exact (fixed_build (by simp) (by simp)).settles

/-- What was built for a part that is there is built again in every library. -/
theorem Made.builds (h : κ.Made l d) (hn : n.Uniform) (hκ : κ.In n) (hl : l.Grown n)
    (hstarts : (l.add d).Starts l') (hl' : l'.Grown n) (ws : List Warning) :
    ∃ ws', Returns κ.build ⟨l', ws⟩ ⟨d.header, d.content.ports, d.content.body⟩ ⟨l', ws'⟩ := by
  rcases h.build [] with ⟨ws', hbuild⟩
  rcases settles hn hκ ⟨l, []⟩ _ ⟨l, ws'⟩ hl hbuild with ⟨_, _, hagain⟩
  exact hagain l' ws hl' (Library.starts_add.trans hstarts)

end Part

end

/-- A workshop never has the wrong module for a part. -/
structure Part.Sound (κ : Part) (w : Workshop) : Prop where
  /-- The name of the part is free or stands for its parameters, -/
  asked : ∃ b, w.library.needs (κ.moduleName w.library) κ.parameters = .ok b
  /-- also after building, when the module is to be defined. -/
  defined : ∀ built v, Returns κ.build w built v →
    ∃ b, v.library.needs (κ.moduleName w.library) κ.parameters = .ok b
  /-- A module that is there is reused as it is. -/
  reused : ∀ d, w.library.find? (κ.moduleName w.library) = some d →
    Returns κ.recipe.make w d.name w
  /-- Building for the part gives the header, the ports and the items of that module, -/
  rebuilt : ∀ d, w.library.find? (κ.moduleName w.library) = some d →
    ∃ ws, Returns κ.build w ⟨d.header, d.content.ports, d.content.body⟩ ⟨w.library, ws⟩
  /-- and making the part before the module was there gives its definition. -/
  remade : ∀ d, w.library.find? (κ.moduleName w.library) = some d →
    ∃ ws, Returns κ.recipe.make ⟨w.library.before d.name, w.warnings⟩ d.name
      ⟨(w.library.before d.name).add d, ws⟩

namespace Netlist

/-- What makers of a design lead to, whichever of them are run and in whatever order. -/
inductive Reached (n : Netlist) : Workshop → Prop
  | empty : Reached n .empty
  | make {w w' : Workshop} {m : Making String} {name : String} (hw : Reached n w)
      (hm : n.Makes m) (h : Returns m w name w') : Reached n w'

/-- A maker fails before it asks for a module, or it follows the recipe of a part, and then its
    module is shared soundly wherever makers of the design lead to. -/
def Shares (n : Netlist) (m : Making String) : Prop :=
  Refuses m ∨ ∃ κ : Part, m = κ.recipe.make ∧ ∀ w, n.Reached w → κ.Sound w

variable {n : Netlist} {w w' : Workshop}

/-- Libraries of a design consist of its parts. -/
theorem grown_of_reached (hn : n.Uniform) (h : n.Reached w) : w.library.Grown n := by
  induction h with
  | empty => exact .empty
  | make _ hm hreturns ih =>
      rcases hm.follows hn with hrefuses | ⟨κ, hκ, rfl⟩
      · exact absurd hreturns hrefuses.not_returns
      · exact (Settles.make hn hκ (Part.settles hn hκ) _ _ _ ih hreturns).1

/-- The components are made one after the other, so whatever stands in the library while the
    top module is made has been made by makers of the design. -/
theorem reached_of_place {indices : List Nat} {placed : List Placed} (hw : n.Reached w)
    (h : Returns (indices.mapM n.place) w placed w') : n.Reached w' := by
  induction indices generalizing w placed with
  | nil =>
      rw [List.mapM_nil] at h
      rw [(returns_pure.mp h).2]
      exact hw
  | cons index rest ih =>
      rw [List.mapM_cons] at h
      rcases returns_bind.mp h with ⟨p, v, hplace, h⟩
      rcases returns_bind.mp h with ⟨more, v', hmore, h⟩
      rcases returns_pure.mp h with ⟨_, rfl⟩
      -- Of what is done for a component only its maker touches the workshop.
      refine ih ?_ hmore
      rcases returns_lift_bind.mp hplace with ⟨c, _, h⟩
      rcases returns_bind.mp h with ⟨name, v'', hmake, h⟩
      rcases returns_lift_bind.mp h with ⟨_, _, h⟩
      rcases returns_lift_bind.mp h with ⟨_, _, h⟩
      rw [(returns_pure.mp h).2]
      exact hw.make (.component index) hmake

/-- Among parts of a design sharing is sound. -/
theorem sound_of_grown {κ : Part} (hn : n.Uniform) (hκ : κ.In n) (h : w.library.Grown n) :
    κ.Sound w := by
  -- What is found was made for the part, and the library before it is where that was.
  have hfound : ∀ d, w.library.find? (κ.moduleName w.library) = some d →
      ∃ l : Library, l.Grown n ∧ (l.add d).Starts w.library ∧ κ.Made l d :=
    fun d => h.made_of_find hn hκ
  refine ⟨h.needs_ok hn hκ, fun built v hbuilt => ?_, fun d hd => ?_, fun d hd => ?_,
    fun d hd => ?_⟩
  · rw [Part.moduleName_built hbuilt]
    exact (Part.settles hn hκ w built v h hbuilt).1.needs_ok hn hκ
  · rcases hfound d hd with ⟨l, _, hstarts, hmade⟩
    exact hmade.returns hstarts w.warnings
  · rcases hfound d hd with ⟨l, hl, hstarts, hmade⟩
    exact hmade.builds hn hκ hl hstarts h w.warnings
  · rcases hfound d hd with ⟨l, _, hstarts, hmade⟩
    rw [Library.before_eq hmade.free hstarts]
    exact hmade.defines w.warnings

/-- Sharing is sound in the design of a kernel. -/
theorem shares_of_ofKernel {k : Kernel} (hk : ofKernel k = .ok n) {m : Making String}
    (hm : n.Makes m) : n.Shares m := by
  have hn := uniform_of_ofKernel hk
  rcases hm.follows hn with hrefuses | ⟨κ, hκ, hmake⟩
  · exact .inl hrefuses
  · exact .inr ⟨κ, hmake, fun w hw => sound_of_grown hn hκ (grown_of_reached hn hw)⟩

/-- The queue of a row that is read and that of a row that is written share a module. -/
theorem shares_of_ofKernel_increments : ∃ n w w', ofKernel increments = .ok n ∧ n.Reached w ∧
    Returns (n.makeComponent 4) w "FIFO_UInt8_1_1" w' ∧
      w.library.names = ["FIFO_UInt8_1_1"] ∧ w'.library.names = ["FIFO_UInt8_1_1"] ∧
        n.Shares (n.makeComponent 4) := by
  have hqueues : (ofKernel increments).map (fun n =>
      let first := (n.makeComponent 2).run.run .empty
      let second := (n.makeComponent 4).run.run first.2
      (first.1, second.1, first.2.library.names, second.2.library.names))
        = .ok (.ok "FIFO_UInt8_1_1", .ok "FIFO_UInt8_1_1", ["FIFO_UInt8_1_1"],
          ["FIFO_UInt8_1_1"]) := by
    decide +kernel
  rcases Fallible.exists_of_map hqueues with ⟨n, hn, hruns⟩
  rw [Prod.mk.injEq, Prod.mk.injEq, Prod.mk.injEq] at hruns
  rcases hruns with ⟨hfirst, hsecond, hnames, hnames'⟩
  exact ⟨n, _, _, hn, .make .empty (.component 2) (returns_of_run hfirst), returns_of_run hsecond,
    hnames, hnames', shares_of_ofKernel hn (.component 4)⟩

end Netlist

end StencilRtl
