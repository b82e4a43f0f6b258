import StencilRtl.Proofs.Netlist.Steps
import StencilRtl.Proofs.Operands.StreamCalls

/-!
# Operands of Stream Operations

What can stand as an operand of a stream operation.

A call is read just if its operands spell it, and the formats say of every operand whether
it is a buffer, a text or a constant. So nothing has to be known of the reading, and it only
remains to go through the formats.

## Main definitions

* `Expr.IsOperand`: What an operand may be.

## Theorems

* `ReadStream.Spelled.isOperand` and the like: The operands that spell a call.
* `Construction.operation_operands`: A call that is read as a stream operation is one of
  the four, with operands.
-/

namespace StencilRtl

namespace Expr

/-- A buffer, a text or an integer constant. -/
def IsOperand (e : Expr) : Prop :=
  e.var?.isSome = true ∨ e.text?.isSome = true ∨ e.constant?.isSome = true

theorem Names.isOperand {e : Expr} {name : String} (h : e.Names name) : e.IsOperand :=
  .inl (Option.isSome_of_eq_some (var?_iff.mpr h))

theorem isOperand_text (value : String) : (textImm value).IsOperand := .inr (.inl rfl)

theorem Counts.isOperand {e : Expr} {n : Nat} (h : e.Counts n) : e.IsOperand :=
  .inr (.inr (Option.isSome_of_eq_some (constant?_iff.mpr h)))

/-- Groups of operands are operands, whatever the groups spell. -/
theorem isOperand_flatten {α : Type} {Spells : List Expr → α → Prop} {groups : List (List Expr)}
    {as : List α} (hgroup : ∀ group a, Spells group a → ∀ e ∈ group, e.IsOperand)
    (h : List.Forall₂ Spells groups as) : ∀ e ∈ groups.flatten, e.IsOperand := by
  intro e he
  rcases List.mem_flatten.mp he with ⟨group, hmem, he⟩
  rcases exists_of_forall₂ h hmem with ⟨a, _, hspelled⟩
  exact hgroup group a hspelled e he

end Expr

open StencilRtl.Expr

theorem ReadStream.Spelled.isOperand {args : List Expr} {call : ReadStream}
    (h : Spelled args call) : ∀ e ∈ args, e.IsOperand := by
  cases h with
  | whole hstream hstencil =>
      exact List.forall_mem_cons.mpr ⟨hstream.isOperand,
        List.forall_mem_singleton.mpr hstencil.isOperand⟩
  | part consumer hstream hstencil =>
      exact List.forall_mem_cons.mpr ⟨hstream.isOperand, List.forall_mem_cons.mpr
        ⟨hstencil.isOperand, List.forall_mem_singleton.mpr (isOperand_text consumer)⟩⟩

theorem WriteStream.Spelled.isOperand {args : List Expr} {call : WriteStream}
    (h : Spelled args call) : ∀ e ∈ args, e.IsOperand := by
  rcases h with ⟨hstream, hstencil, hextents⟩
  refine List.forall_mem_cons.mpr ⟨hstream.isOperand, List.forall_mem_cons.mpr
    ⟨hstencil.isOperand, isOperand_flatten ?_ hextents⟩⟩
  rintro _ extent ⟨name, e, most, rfl, hmost, _⟩
  exact List.forall_mem_cons.mpr ⟨isOperand_text name, List.forall_mem_singleton.mpr
    hmost.isOperand⟩

theorem LineBufferCall.Spelled.isOperand {args : List Expr} {call : LineBufferCall}
    (h : Spelled args call) : ∀ e ∈ args, e.IsOperand := by
  rcases h with ⟨hinput, houtput, _, hextents⟩
  refine List.forall_mem_cons.mpr ⟨hinput.isOperand, List.forall_mem_cons.mpr
    ⟨houtput.isOperand, fun e he => ?_⟩⟩
  rcases exists_of_forall₂ hextents he with ⟨extent, _, hextent, _⟩
  exact hextent.isOperand

namespace DispatchCall

theorem SpellsDimension.isOperand {operands : List Expr} {d : Nat × Nat × Nat}
    (h : SpellsDimension operands d) : ∀ e ∈ operands, e.IsOperand := by
  rcases h with ⟨size, step, store, rfl, hsize, hstep, hstore, _⟩
  exact List.forall_mem_cons.mpr ⟨hsize.1.isOperand, List.forall_mem_cons.mpr
    ⟨hstep.1.isOperand, List.forall_mem_singleton.mpr hstore.isOperand⟩⟩

theorem SpellsSide.isOperand {operands : List Expr} {side : Nat × Nat}
    (h : SpellsSide operands side) : ∀ e ∈ operands, e.IsOperand := by
  rcases h with ⟨offset, extent, rfl, hoffset, hextent, _⟩
  exact List.forall_mem_cons.mpr ⟨hoffset.isOperand, List.forall_mem_singleton.mpr
    hextent.isOperand⟩

theorem SpellsConsumer.isOperand {rank : Nat} {operands : List Expr} {box : DispatchBox}
    (h : SpellsConsumer rank operands box) : ∀ e ∈ operands, e.IsOperand := by
  rcases h with ⟨name, hdepth, hsides, _⟩
  exact List.forall_mem_cons.mpr ⟨isOperand_text name, List.forall_mem_cons.mpr
    ⟨hdepth.isOperand, isOperand_flatten (fun _ _ => SpellsSide.isOperand) hsides⟩⟩

theorem Spelled.isOperand {args : List Expr} {call : DispatchCall} (h : Spelled args call) :
    ∀ e ∈ args, e.IsOperand := by
  rcases h with ⟨hstream, hrank, hdimensions, hcount, hconsumers⟩
  have hsides := isOperand_flatten (fun _ _ => SpellsDimension.isOperand) hdimensions
  have hboxes := isOperand_flatten (fun _ _ => SpellsConsumer.isOperand) hconsumers
  exact List.forall_mem_cons.mpr ⟨hstream.isOperand, List.forall_mem_cons.mpr
    ⟨hrank.1.isOperand, List.forall_mem_append.mpr ⟨hsides, List.forall_mem_cons.mpr
      ⟨hcount.1.isOperand, hboxes⟩⟩⟩⟩

end DispatchCall

/-- A call that is read as a stream operation is one of the four, with operands. -/
theorem Construction.operation_operands {name : String} {args : List Expr}
    {c c' : Construction} {u : Unit} (h : operation name args c = .ok (u, c')) :
    name ∈ streamOperations ∧ ∀ e ∈ args, e.IsOperand := by
  cases operation_ok h with
  | read hcall =>
      exact ⟨by simp [streamOperations], (ReadStream.ofArgs_iff.mp hcall).isOperand⟩
  | write hcall =>
      exact ⟨by simp [streamOperations], (WriteStream.ofArgs_iff.mp hcall).isOperand⟩
  | lineBuffer hcall =>
      exact ⟨by simp [streamOperations], (LineBufferCall.ofArgs_iff.mp hcall).isOperand⟩
  | dispatch hcall =>
      exact ⟨by simp [streamOperations], ((DispatchCall.decodesCall.accepts _ _).mp hcall).1.isOperand⟩

end StencilRtl
