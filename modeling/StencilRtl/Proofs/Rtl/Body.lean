import StencilRtl.Proofs.Fallible
import StencilRtl.Rtl.Module

/-!
# Bodies That Could Be Built

The items of a body that has been put together.

A body is put together from smaller ones, each of which may fail. If the whole of it
is there, so are its parts, and each of the usual parts is known by the items it is
made of.

## Theorems

* `join_ok`, `join_returns`: Bodies one after the other.
* `wire_ok`, `reg_ok`, `memory_ok`: Declarations.
* `net_ok`: A declared and driven wire.
* `join_part`, `join_assign`, `join_net`, `join_wire`, `join_reg`: The usual parts of a
  body.
-/

namespace StencilRtl

namespace Rtl

namespace Body

/-- Bodies put together hold the items of each of them. -/
theorem join_ok {bodies : List Body} {items : List Item} (h : join bodies = .ok items) :
    ∀ b ∈ bodies, ∃ own, b = .ok own ∧ ∀ i ∈ own, i ∈ items := by
  induction bodies generalizing items with
  | nil => exact fun b hb => absurd hb List.not_mem_nil
  | cons first rest ih =>
      rcases Fallible.bind_ok.mp h with ⟨own, hown, h₁⟩
      rcases Fallible.bind_ok.mp h₁ with ⟨more, hmore, hpure⟩
      rcases Except.ok.inj hpure with ⟨⟩
      intro b hb
      rcases List.mem_cons.mp hb with rfl | hb
      · exact ⟨own, hown, fun i hi => List.mem_append_left _ hi⟩
      · rcases ih hmore b hb with ⟨other, hother, hsub⟩
        exact ⟨other, hother, fun i hi => List.mem_append_right _ (hsub i hi)⟩

/-- Bodies that can all be built can be put together. -/
theorem join_returns {bodies : List Body} (h : ∀ b ∈ bodies, ∃ own, b = .ok own) :
    ∃ items, join bodies = .ok items := by
  induction bodies with
  | nil => exact ⟨[], rfl⟩
  | cons b rest ih =>
      rw [List.forall_mem_cons] at h
      rcases h.1 with ⟨own, hown⟩
      rcases ih h.2 with ⟨more, hmore⟩
      refine ⟨own ++ more, ?_⟩
      rw [join, hown, hmore]
      rfl

/-- A wire that could be declared is not empty. -/
theorem wire_ok {name : String} {width : Nat} {items : List Item}
    (h : wire name width = .ok items) : width ≠ 0 ∧ items = [.wire name width] := by
  unfold wire at h
  split at h
  · exact absurd h (by simp [giveWay])
  · next hwidth => exact ⟨hwidth, (Except.ok.inj h).symm⟩

/-- Nor is a register. -/
theorem reg_ok {name : String} {width : Nat} {items : List Item}
    (h : reg name width = .ok items) : width ≠ 0 ∧ items = [.reg name width] := by
  unfold reg at h
  split at h
  · exact absurd h (by simp [giveWay])
  · next hwidth => exact ⟨hwidth, (Except.ok.inj h).symm⟩

/-- Nor is a memory. -/
theorem memory_ok {name : String} {width depth : Nat} {items : List Item}
    (h : memory name width depth = .ok items) :
    (width ≠ 0 ∧ depth ≠ 0) ∧ items = [.memory name width depth] := by
  unfold memory at h
  split at h
  · exact absurd h (by simp [giveWay])
  · next hsizes =>
    rw [not_or] at hsizes
    exact ⟨hsizes, (Except.ok.inj h).symm⟩

/-- A declared and driven wire. -/
theorem net_eq {name : String} {width : Nat} {value : Expr} {items : List Item}
    (h : net name width value = .ok items) :
    items = [.wire name width, .assign (.ref name) value] := by
  rcases Fallible.bind_ok.mp h with ⟨own, hwire, hrest⟩
  rcases wire_ok hwire with ⟨_, rfl⟩
  exact (Except.ok.inj hrest).symm

theorem net_ok {name : String} {width : Nat} {value : Expr} {items : List Item}
    (h : net name width value = .ok items) :
    .wire name width ∈ items ∧ .assign (.ref name) value ∈ items := by
  rw [net_eq h]
  exact ⟨List.mem_cons_self .., List.mem_cons_of_mem _ (List.mem_singleton_self _)⟩

section

variable {bodies : List Body} {items : List Item} {name : String} {width : Nat} {value : Expr}

/-- A part of a body is part of everything the body is part of. -/
theorem join_part (h : join bodies = .ok items) {all : List Item} (hsub : ∀ i ∈ items, i ∈ all)
    {part : Body} (hpart : part ∈ bodies) : ∃ own, part = .ok own ∧ ∀ i ∈ own, i ∈ all := by
  rcases join_ok h part hpart with ⟨own, hown, hin⟩
  exact ⟨own, hown, fun i hi => hsub i (hin i hi)⟩

/-- The drivers among the parts of a body. -/
theorem join_assign (h : join bodies = .ok items) (hpart : assign name value ∈ bodies) :
    .assign (.ref name) value ∈ items := by
  rcases join_ok h _ hpart with ⟨own, hown, hsub⟩
  rcases Except.ok.inj hown with ⟨⟩
  exact hsub _ (List.mem_singleton_self _)

/-- The wires with a driver among them. -/
theorem join_net (h : join bodies = .ok items) (hpart : net name width value ∈ bodies) :
    .wire name width ∈ items ∧ .assign (.ref name) value ∈ items := by
  rcases join_ok h _ hpart with ⟨own, hown, hsub⟩
  exact ⟨hsub _ (net_ok hown).1, hsub _ (net_ok hown).2⟩

/-- The wires without one. -/
theorem join_wire (h : join bodies = .ok items) (hpart : wire name width ∈ bodies) :
    .wire name width ∈ items := by
  rcases join_ok h _ hpart with ⟨own, hown, hsub⟩
  rcases wire_ok hown with ⟨_, rfl⟩
  exact hsub _ (List.mem_singleton_self _)

/-- The registers among them. -/
theorem join_reg (h : join bodies = .ok items) (hpart : reg name width ∈ bodies) :
    .reg name width ∈ items := by
  rcases join_ok h _ hpart with ⟨own, hown, hsub⟩
  rcases reg_ok hown with ⟨_, rfl⟩
  exact hsub _ (List.mem_singleton_self _)

end

end Body

end Rtl

end StencilRtl
