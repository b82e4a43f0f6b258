import StencilRtl.Proofs.Registers.Layout

/-!
# Allocating Registers

What a register map looks like after any calls that add parameters to it.

A call that is refused at once leaves the map alone, but the last check of a call runs
when the parameter is already in the map, and a failure there would leave it in. It never
comes to that: an entry begins where the map ended, which is where the entry before it
ends. So the property to carry from call to call is that entries adjoin, and all that is
wanted of offsets and addresses is read off from it. Names are told apart by the call
itself.

## Main definitions

* `RegisterMap.Distinct`: Parameters have different names.
* `RegisterMap.Adjoining`: Entries follow each other without gaps.
* `RegisterMap.Sound`: What every call keeps.
* `RegisterMap.placed`: The map after some calls.

## Theorems

* `RegisterMap.run_place`: What a call does.
* `RegisterMap.allocate_ok`, `RegisterMap.find?_allocate`: What has been added.
* `RegisterMap.Sound.place`: A call adds an entry to a sound map or leaves it alone.
* `RegisterMap.sound_placed`: All maps are sound.
* `RegisterMap.placed_disjoint`: The entries of a map share no name and no address.
-/

namespace StencilRtl

namespace RegisterMap

/-- Parameters have different names. -/
def Distinct (m : RegisterMap) : Prop := (m.entries.map RegisterEntry.name).Nodup

section Calls

variable {m : RegisterMap} {name : String} {shape : Shape} {r : RegisterMap × RegisterEntry}

/-- What a call does. Only the last failure leaves an entry behind. -/
theorem run_place : (place name shape).run.run m =
    if busWidth < shape.elem.bits then
      (unsupported (.wideParameter name shape.text busWidth), m)
    else if m.entries.any fun e => e.name = name then (malformed (.parameterTwice name), m)
    else
      match (m.entryFor name shape).past with
      | .error failure => (.error failure, m)
      | .ok past =>
          match (⟨m.entries ++ [m.entryFor name shape], past⟩ : RegisterMap).checkLast with
          | .error failure => (.error failure, ⟨m.entries ++ [m.entryFor name shape], past⟩)
          | .ok _ =>
              (.ok (m.entryFor name shape), ⟨m.entries ++ [m.entryFor name shape], past⟩) := by
  unfold place
  rw [run_bind, run_get]
  change (ite _ _ _ : Allocating RegisterEntry).run.run m = _
  split
  · rfl
  split
  · rfl
  simp only [run_bind, run_lift]
  cases (m.entryFor name shape).past with
  | error failure => rfl
  | ok past =>
      simp only []
      cases (⟨m.entries ++ [m.entryFor name shape], past⟩ : RegisterMap).checkLast <;> rfl

/-- A call that returns has found the parameter narrow and its name free, and the entry
    is behind the others. -/
theorem run_place_ok {e : RegisterEntry} (h : (place name shape).run.run m = (.ok e, r.1)) :
    shape.elem.bits ≤ busWidth ∧ (∀ e ∈ m.entries, e.name ≠ name) ∧
      e = m.entryFor name shape ∧ e.past = .ok r.1.cursor ∧ r.1.entries = m.entries ++ [e] := by
  rw [run_place] at h
  split at h
  -- There are four ways to fail, each of them checked before the entry is added.
  · exact absurd (congrArg Prod.fst h) (by simp [unsupported])
  next hnarrow =>
  split at h
  · exact absurd (congrArg Prod.fst h) (by simp [malformed])
  next hfree =>
  split at h
  · exact absurd (congrArg Prod.fst h) (by simp)
  next past hpast =>
  split at h
  · exact absurd (congrArg Prod.fst h) (by simp)
  · rw [Prod.mk.injEq, Except.ok.injEq] at h
    rcases h with ⟨rfl, hmap⟩
    rw [← hmap]
    refine ⟨Nat.le_of_not_lt hnarrow, fun e he hname => hfree ?_, rfl, hpast, rfl⟩
    exact List.any_eq_true.mpr ⟨e, he, decide_eq_true hname⟩

/-- A new parameter has a name of its own and fits the bus, and is put behind the
    others. -/
theorem allocate_ok (h : m.allocate name shape = .ok r) :
    shape.elem.bits ≤ busWidth ∧ (∀ e ∈ m.entries, e.name ≠ name) ∧
      r.2 = ⟨name, m.cursor, shape.elem, shape.extents⟩ ∧ r.2.past = .ok r.1.cursor ∧
      r.1.entries = m.entries ++ [r.2] := by
  unfold allocate at h
  split at h
  · next hrun =>
    rcases Except.ok.inj h with rfl
    exact run_place_ok hrun
  · exact absurd h (by simp)

/-- The map ends where it ended before, or later. -/
theorem cursor_allocate (h : m.allocate name shape = .ok r) : m.cursor ≤ r.1.cursor := by
  rcases allocate_ok h with ⟨_, _, hentry, hpast, _⟩
  rw [(RegisterEntry.past_ok hpast).2.1, hentry]
  exact Nat.le_add_right _ _

theorem find?_allocate (h : m.allocate name shape = .ok r) :
    r.1.find? name = some r.2 ∧
      ∀ other e, m.find? other = some e → r.1.find? other = some e := by
  rcases allocate_ok h with ⟨_, hfree, hentry, _, hentries⟩
  refine ⟨?_, fun other e he => ?_⟩
  · have hnone : m.entries.find? (fun e => e.name = name) = none := by
      rw [List.find?_eq_none]
      exact fun e he hname => hfree e he (of_decide_eq_true hname)
    rw [find?, hentries, List.find?_append, hnone, Option.none_or, hentry]
    simp
  · rw [find?] at he
    rw [find?, hentries, List.find?_append, he, Option.some_or]

/-- Names stay different when an entry with another name is added. -/
theorem Distinct.concat {e : RegisterEntry} {cursor : Nat} (hm : m.Distinct)
    (hfree : ∀ other ∈ m.entries, other.name ≠ e.name) :
    Distinct ⟨m.entries ++ [e], cursor⟩ := by
  rw [Distinct, List.map_append, List.map_singleton]
  refine List.nodup_append.mpr ⟨hm, List.pairwise_singleton .., fun a ha b hb => ?_⟩
  rcases List.mem_map.mp ha with ⟨other, hother, rfl⟩
  rw [List.mem_singleton.mp hb]
  exact hfree other hother

theorem distinct_allocate (h : m.allocate name shape = .ok r) (hm : m.Distinct) :
    r.1.Distinct := by
  rcases allocate_ok h with ⟨_, hfree, hentry, _, hentries⟩
  have hall : Distinct ⟨m.entries ++ [r.2], r.1.cursor⟩ :=
    hm.concat fun other hother => by rw [hentry]; exact hfree other hother
  rwa [← hentries] at hall

end Calls

/-- Entries follow each other without gaps, the first one at an address, up to another
    one. -/
inductive Adjoining : Nat → List RegisterEntry → Nat → Prop where
  | nil {first : Nat} : Adjoining first [] first
  | cons {e : RegisterEntry} {rest : List RegisterEntry} {next past : Nat}
      (hnext : e.past = .ok next) (hrest : Adjoining next rest past) :
      Adjoining e.offset (e :: rest) past

namespace Adjoining

variable {first past : Nat} {entries : List RegisterEntry} (h : Adjoining first entries past)

include h

theorem le : first ≤ past := by
  induction h with
  | nil => exact Nat.le_refl _
  | cons hnext _ ih =>
      have hend := (RegisterEntry.past_ok hnext).2.1
      omega

/-- An entry that begins where the others end. -/
theorem concat {e : RegisterEntry} {next : Nat} (hoffset : e.offset = past)
    (hnext : e.past = .ok next) : Adjoining first (entries ++ [e]) next := by
  induction h with
  | nil => exact hoffset ▸ cons hnext nil
  | cons hfirst _ ih => exact cons hfirst (ih hoffset)

/-- The last entry ends where the range ends. -/
theorem past_getLast? {e : RegisterEntry} (hlast : entries.getLast? = some e) :
    e.past = .ok past := by
  induction h with
  | nil => exact absurd hlast (by simp)
  | @cons d rest next past hnext hrest ih =>
      cases rest with
      | nil =>
          rcases Option.some.inj hlast with rfl
          cases hrest
          exact hnext
      | cons b more => exact ih (by rwa [List.getLast?_cons_cons] at hlast)

/-- Offsets are multiples of the size of a word if the first one is. -/
theorem dvd_offset (hfirst : 4 ∣ first) : ∀ e ∈ entries, 4 ∣ e.offset := by
  induction h with
  | nil => exact List.forall_mem_nil _
  | @cons e _ next _ hnext _ ih =>
      have hend := (RegisterEntry.past_ok hnext).2.1
      exact List.forall_mem_cons.mpr ⟨hfirst, ih (by omega)⟩

/-- Entries that adjoin pass the check of the whole map. -/
theorem validateFrom {m : RegisterMap} (hcursor : past ≤ m.cursor) :
    m.validateFrom first entries = .ok () := by
  induction h with
  | nil => rfl
  | cons hnext hrest ih =>
      have hle := hrest.le
      unfold RegisterMap.validateFrom
      rw [if_neg (Nat.lt_irrefl _), hnext]
      change (if m.cursor < _ then _ else _) = _
      rw [if_neg (by omega)]
      exact ih hcursor

/-- An entry that begins where the others end passes the last check of a call. -/
theorem checkLast {e : RegisterEntry} {next : Nat} (hoffset : e.offset = past) :
    RegisterMap.checkLast ⟨entries ++ [e], next⟩ = .ok () := by
  unfold RegisterMap.checkLast
  rw [List.reverse_append, List.reverse_singleton, List.singleton_append]
  cases hrev : entries.reverse with
  | nil => rfl
  | cons before rest =>
      have hlast : entries.getLast? = some before := by
        rw [← List.head?_reverse, hrev, List.head?_cons]
      change (do
        let past ← before.past
        if e.offset < past then _) = _
      rw [h.past_getLast? hlast]
      change (if e.offset < past then _ else _) = _
      rw [hoffset, if_neg (Nat.lt_irrefl _)]
      rfl

end Adjoining

/-- A map in which parameters have different names and follow each other without gaps,
    from the first address they are given up to the end of the map. -/
structure Sound (m : RegisterMap) : Prop where
  distinct : m.Distinct
  adjoining : Adjoining parameterBase m.entries m.cursor

namespace Sound

variable {m : RegisterMap}

theorem empty : Sound empty := ⟨List.nodup_nil, .nil⟩

theorem validate (h : m.Sound) : m.validate = .ok () :=
  h.adjoining.validateFrom (Nat.le_refl _)

/-- An entry is added to a sound map if the parameter is narrow, its name free and its
    range in the words. Otherwise the map is left alone. -/
theorem place (h : m.Sound) (name : String) (shape : Shape) :
    (∃ past, shape.elem.bits ≤ busWidth ∧ (∀ e ∈ m.entries, e.name ≠ name) ∧
        (m.entryFor name shape).past = .ok past ∧
        (place name shape).run.run m
          = (.ok (m.entryFor name shape), ⟨m.entries ++ [m.entryFor name shape], past⟩)) ∨
      (busWidth < shape.elem.bits ∨ (∃ e ∈ m.entries, e.name = name) ∨
          ∃ failure, (m.entryFor name shape).past = .error failure) ∧
        ∃ failure, (RegisterMap.place name shape).run.run m = (.error failure, m) := by
  rw [run_place]
  by_cases hwide : busWidth < shape.elem.bits
  · rw [if_pos hwide]
    exact .inr ⟨.inl hwide, _, rfl⟩
  rw [if_neg hwide]
  by_cases htaken : m.entries.any fun e => e.name = name
  · rw [if_pos htaken]
    rcases List.any_eq_true.mp htaken with ⟨e, he, hname⟩
    exact .inr ⟨.inr (.inl ⟨e, he, of_decide_eq_true hname⟩), _, rfl⟩
  rw [if_neg htaken]
  -- The address behind the entry may not be a word, and then nothing is added either.
  cases hpast : (m.entryFor name shape).past with
  | error failure => exact .inr ⟨.inr (.inr ⟨failure, rfl⟩), failure, rfl⟩
  | ok past =>
      refine .inl ⟨past, Nat.le_of_not_lt hwide, fun e he hname => htaken ?_, rfl, ?_⟩
      · exact List.any_eq_true.mpr ⟨e, he, decide_eq_true hname⟩
      · simp only [h.adjoining.checkLast (e := m.entryFor name shape) rfl]

/-- A call keeps a map sound, whether it returns or not. -/
theorem run_place (h : m.Sound) (name : String) (shape : Shape) :
    Sound ((RegisterMap.place name shape).run.run m).2 := by
  rcases h.place name shape with ⟨past, _, hfree, hpast, hrun⟩ | ⟨_, failure, hrun⟩
  · rw [hrun]
    exact ⟨h.distinct.concat hfree, h.adjoining.concat rfl hpast⟩
  · rw [hrun]
    exact h

end Sound

/-- The map after some calls, of which any may have failed. -/
def placed (m : RegisterMap) (calls : List (String × Shape)) : RegisterMap :=
  calls.foldl (fun m call => ((place call.1 call.2).run.run m).2) m

/-- Calls leave a sound map. -/
theorem sound_placed (calls : List (String × Shape)) : (empty.placed calls).Sound :=
  List.foldlRecOn (motive := Sound) calls _ .empty fun _ h call _ => h.run_place call.1 call.2

/-- Calls only add parameters that are not wider than the bus. -/
theorem narrow_placed (calls : List (String × Shape)) :
    ∀ e ∈ (empty.placed calls).entries, e.elem.bits ≤ busWidth := by
  refine (List.foldlRecOn (motive := fun m : RegisterMap => m.Sound ∧
      ∀ e ∈ m.entries, e.elem.bits ≤ busWidth) calls _
    ⟨.empty, fun e he => absurd he List.not_mem_nil⟩ fun m hm call _ => ?_).2
  refine ⟨hm.1.run_place call.1 call.2, ?_⟩
  rcases hm.1.place call.1 call.2 with ⟨past, hnarrow, _, _, hrun⟩ | ⟨_, failure, hrun⟩
  · rw [hrun, List.forall_mem_append, List.forall_mem_singleton]
    exact ⟨hm.2, hnarrow⟩
  · rw [hrun]
    exact hm.2

/-- The addresses of an entry of a sound map are words of the map. -/
theorem Sound.dvd_address {m : RegisterMap} (h : m.Sound) : ∀ a ∈ addresses m.entries, 4 ∣ a := by
  intro a ha
  rcases List.mem_flatMap.mp ha with ⟨e, he, ha⟩
  rw [RegisterEntry.map_fst_elements] at ha
  rcases List.mem_map.mp ha with ⟨k, _, rfl⟩
  have hoffset := h.adjoining.dvd_offset (by decide) e he
  omega

/-- Whatever calls have been made, and whichever of them have failed: names are different,
    entries adjoin, the map passes its check, and no two words share an address. The next
    call adds an entry, or fails for one of three reasons and leaves the map as it is. -/
theorem placed_disjoint (calls : List (String × Shape)) :
    let m := empty.placed calls
    m.Distinct ∧ Adjoining parameterBase m.entries m.cursor ∧ m.validate = .ok () ∧
      (addresses m.entries).Nodup ∧
      (∀ a ∈ addresses m.entries, 4 ∣ a ∧ parameterBase ≤ a ∧ a + 4 ≤ m.cursor) ∧
      (∀ e ∈ m.entries, e.words = .ok e.elements.length ∧
        e.elements.map Prod.fst = (List.range e.elements.length).map fun k => e.offset + 4 * k) ∧
      ∀ name shape,
        (∃ past, shape.elem.bits ≤ busWidth ∧ (∀ e ∈ m.entries, e.name ≠ name) ∧
          (m.entryFor name shape).past = .ok past ∧
          (place name shape).run.run m
            = (.ok (m.entryFor name shape), ⟨m.entries ++ [m.entryFor name shape], past⟩)) ∨
        (busWidth < shape.elem.bits ∨ (∃ e ∈ m.entries, e.name = name) ∨
            ∃ failure, (m.entryFor name shape).past = .error failure) ∧
          ∃ failure, (place name shape).run.run m = (.error failure, m) := by
  intro m
  have hsound : m.Sound := sound_placed calls
  rcases addresses_of_validateFrom hsound.validate with ⟨hincreasing, hrange, hends⟩
  refine ⟨hsound.distinct, hsound.adjoining, hsound.validate, hincreasing.imp Nat.ne_of_lt,
    fun a ha => ⟨hsound.dvd_address a ha, hrange a ha⟩, fun e he => ?_, hsound.place⟩
  rcases hends e he with ⟨past, hpast⟩
  rw [RegisterEntry.length_elements]
  exact ⟨(RegisterEntry.past_ok hpast).1, RegisterEntry.map_fst_elements⟩

/-- The second and the third call fail, and the fourth goes on where the first one ended. -/
example : (empty.placed [("w", .stencil (.uint 8) [2, 3]), ("w", .bit), ("c", .uint 64),
      ("d", .bit)]).entries.map (fun e => (e.name, e.offset)) = [("w", 0x40), ("d", 0x58)] := by
  decide

end RegisterMap

end StencilRtl
