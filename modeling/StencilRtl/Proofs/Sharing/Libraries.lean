import StencilRtl.Proofs.Sharing.Names

/-!
# Libraries of Parts

What the library of a design consists of.

A library grows by one definition at a time, and each of them was made for a part of the
design: under the name that the part had in the library of that time, with its parameters,
and with what is built for it there. So the library of a design is a list of parts, and a
name found in it leads back to the part. There is but one part of that name, so whoever asks
for the name asks for that part.

The number of a numbered part depends on the library, but only until the part is defined.
From then on its number is fixed, and so is its name.

## Main definitions

* `Library.Starts`: A library goes on from another one.
* `Library.before`: The library before a name was defined.
* `Part.Made`: A definition was made for a part.
* `Library.Has`: A library has a part under a name.
* `Library.Grown`: All definitions of a library were made for parts of a design.

## Theorems

* `Part.Made.moduleName_eq`: A part that is defined keeps its name.
* `Library.Grown.made_of_find`: A name that is found leads to the part that asks.
* `Library.Grown.needs_ok`: A part is never refused.
* `Library.before_eq`: What was there before a definition.
-/

namespace StencilRtl

namespace Library

/-- A library that goes on from another one. -/
def Starts (l l' : Library) : Prop := l.definitions <+: l'.definitions

/-- What had been defined before a name was. -/
def before (l : Library) (name : String) : Library :=
  ⟨l.definitions.takeWhile fun d => d.name ≠ name⟩

variable {l l' l'' : Library} {d : Definition} {p : Parameters}

theorem Starts.refl (l : Library) : l.Starts l := List.prefix_rfl

theorem Starts.trans (h : l.Starts l') (h' : l'.Starts l'') : l.Starts l'' :=
  List.IsPrefix.trans h h'

theorem starts_add : l.Starts (l.add d) := List.prefix_append _ _

theorem name_of_find {name : String} (h : l.find? name = some d) : d.name = name := by
  have hname := List.find?_some h
  exact of_decide_eq_true hname

/-- What was free when it was defined is found from then on. -/
theorem find?_of_starts (hfree : l.find? d.name = none) (h : (l.add d).Starts l') :
    l'.find? d.name = some d := by
  rcases h with ⟨rest, hrest⟩
  have hadd : (l.add d).definitions.find? (fun e => e.name = d.name) = some d :=
    find?_add_self hfree
  rw [find?, ← hrest, List.find?_append, hadd, Option.some_or]

/-- What had been defined before a definition is the library it was added to. -/
theorem before_eq (hfree : l.find? d.name = none) (h : (l.add d).Starts l') :
    l'.before d.name = l := by
  rcases h with ⟨rest, hrest⟩
  rw [find?, List.find?_eq_none] at hfree
  rw [before, ← hrest, add, List.append_assoc, List.singleton_append,
    List.takeWhile_append_of_pos (by simpa using hfree), List.takeWhile_cons_of_neg (by simp),
    List.append_nil]

/-- The number of a part is fixed once it is defined. -/
theorem numberOf_of_starts (hself : p.sameFamily p = true) (hlacks : l.Lacks p)
    (hd : d.parameters = p) (h : (l.add d).Starts l') : l'.numberOf p = l.numberOf p := by
  rcases h with ⟨rest, hrest⟩
  -- Before the definition nothing has the parameters, so the number is that of the next one.
  have hlength : (l.definitions.filter fun e => e.parameters.sameFamily p).findIdx
      (fun e => e.parameters = p)
        = (l.definitions.filter fun e => e.parameters.sameFamily p).length :=
    List.findIdx_eq_length_of_false fun e he =>
      decide_eq_false (hlacks e (List.mem_filter.mp he).1)
  unfold numberOf
  rw [← hrest, add, List.append_assoc, List.singleton_append, List.filter_append,
    List.filter_cons_of_pos (by rw [hd]; exact hself), List.findIdx_append, hlength,
    if_neg (lt_irrefl _), List.findIdx_cons, hd]
  simp

end Library

namespace Part

/-- Parts whose modules are numbered. -/
def Numbered (κ : Part) : Prop := κ.parameters.sameFamily κ.parameters = true

/-- A definition was made for a part: nothing had been defined under the name of the part,
    and the module is what is built for it where the definition was added. -/
structure Made (κ : Part) (l : Library) (d : Definition) : Prop where
  name : d.name = κ.moduleName l
  parameters : d.parameters = κ.parameters
  free : l.find? d.name = none
  lacks : κ.Numbered → l.Lacks κ.parameters
  content : d.content.name = d.name
  build : ∀ ws, ∃ ws', Returns κ.build ⟨l, ws⟩ ⟨d.header, d.content.ports, d.content.body⟩
    ⟨l, ws'⟩

variable {κ κ' : Part} {l l' : Library} {d : Definition}

/-- The library matters to a name only for the number. -/
theorem moduleName_congr (h : κ.Numbered → l.numberOf κ.parameters = l'.numberOf κ.parameters) :
    κ.moduleName l = κ.moduleName l' := by
  cases κ with
  | router elem extents plan =>
      have hnumber : l.numberOf (.dispatch elem extents plan)
          = l'.numberOf (.dispatch elem extents plan) := h rfl
      rw [moduleName, moduleName, hnumber]
  | control c =>
      have hnumber : l.numberOf (.loopControl c) = l'.numberOf (.loopControl c) := h rfl
      rw [moduleName, moduleName, LoopControl.moduleName, LoopControl.moduleName, hnumber]
  | _ => rfl

/-- The parameters of a numbered part tell everything about it. -/
theorem eq_of_parameters (hκ : κ.Numbered) (h : κ.parameters = κ'.parameters) : κ = κ' := by
  cases κ with
  | router elem extents plan =>
      cases κ' with
      | router elem' extents' plan' =>
          rcases Parameters.dispatch.inj h with ⟨rfl, rfl, rfl⟩
          rfl
      | _ => exact absurd h (by simp [parameters])
  | control c =>
      cases κ' with
      | control c' =>
          rcases Parameters.loopControl.inj h with rfl
          rfl
      | _ => exact absurd h (by simp [parameters])
  | _ => exact absurd hκ (by simp [Numbered, parameters, Parameters.sameFamily])

/-- A part that is defined keeps its name. -/
theorem Made.moduleName_eq (h : κ.Made l d) (hl : (l.add d).Starts l') :
    κ.moduleName l' = d.name := by
  rw [h.name]
  exact moduleName_congr fun hκ =>
    Library.numberOf_of_starts hκ (h.lacks hκ) h.parameters hl

end Part

namespace Library

/-- The definition of a name was made for a part. -/
def Has (l : Library) (κ : Part) (name : String) : Prop :=
  ∃ l₀ d, d.name = name ∧ κ.Made l₀ d ∧ (l₀.add d).Starts l

theorem Has.mono {l l' : Library} {κ : Part} {name : String} (h : l.Has κ name)
    (hstarts : l.Starts l') : l'.Has κ name := by
  rcases h with ⟨l₀, d, hname, hmade, hthere⟩
  exact ⟨l₀, d, hname, hmade, hthere.trans hstarts⟩

/-- All definitions were made for parts of a design. -/
inductive Grown (n : Netlist) : Library → Prop
  | empty : Grown n .empty
  | add {l : Library} {d : Definition} {κ : Part} (h : Grown n l) (hκ : κ.In n)
      (hmade : κ.Made l d) : Grown n (l.add d)

namespace Grown

variable {n : Netlist} {l : Library} {d : Definition} {κ : Part}

theorem made_of_mem (h : l.Grown n) (hd : d ∈ l.definitions) :
    ∃ (l₀ : Library) (κ : Part), l₀.Grown n ∧ (l₀.add d).Starts l ∧ κ.In n ∧ κ.Made l₀ d := by
  induction h with
  | empty => exact absurd hd List.not_mem_nil
  | @add l e κ hl hκ hmade ih =>
      rcases List.mem_append.mp hd with hd | hd
      · rcases ih hd with ⟨l₀, κ₀, hl₀, hstarts, hin, hmade⟩
        exact ⟨l₀, κ₀, hl₀, hstarts.trans starts_add, hin, hmade⟩
      · rcases List.mem_singleton.mp hd with rfl
        exact ⟨l, κ, hl, .refl _, hκ, hmade⟩

/-- Whoever finds the name of a part has found the part. -/
theorem made_of_find (h : l.Grown n) (hn : n.Uniform) (hκ : κ.In n)
    (hfind : l.find? (κ.moduleName l) = some d) :
    ∃ l₀ : Library, l₀.Grown n ∧ (l₀.add d).Starts l ∧ κ.Made l₀ d := by
  have hd := List.mem_of_find?_eq_some hfind
  rcases h.made_of_mem hd with ⟨l₀, κ₀, hl₀, hstarts, hin, hmade⟩
  have hname : κ.moduleName l = κ₀.moduleName l := by
    rw [hmade.moduleName_eq hstarts, name_of_find hfind]
  -- Numbers stand for parameters only where something has them.
  have hthere : ¬ l.Lacks κ₀.parameters := fun hlacks => hlacks d hd hmade.parameters
  rcases Part.eq_of_moduleName hn hκ hin hthere hname with rfl
  exact ⟨l₀, hl₀, hstarts, hmade⟩

/-- A part is never refused: its name is free or stands for its parameters. -/
theorem needs_ok (h : l.Grown n) (hn : n.Uniform) (hκ : κ.In n) :
    ∃ b, l.needs (κ.moduleName l) κ.parameters = .ok b := by
  unfold needs
  split
  · exact ⟨true, rfl⟩
  · next hfind =>
    rcases h.made_of_find hn hκ hfind with ⟨_, _, _, hmade⟩
    exact ⟨false, if_pos hmade.parameters⟩

/-- If the name of a numbered part is free then the part has not been defined. -/
theorem lacks_of_free (h : l.Grown n) (hκ : κ.Numbered)
    (hfree : l.find? (κ.moduleName l) = none) : l.Lacks κ.parameters := by
  intro d hd hparams
  rcases h.made_of_mem hd with ⟨l₀, κ₀, _, hstarts, hin, hmade⟩
  rcases Part.eq_of_parameters hκ (hparams.symm.trans hmade.parameters) with rfl
  rw [hmade.moduleName_eq hstarts, find?_of_starts hmade.free hstarts] at hfree
  exact absurd hfree (by simp)

end Grown

end Library

end StencilRtl
