import StencilRtl.Proofs.Answers.Outcomes
import StencilRtl.Proofs.Dispatch.Alias

/-!
# Operands That Answer

Reading the operands of a stream operation never gives way, but for one.

Operands are read from left to right, so how many have been read tells which one comes next.
An operand that is not what its place asks for is refused, and a constant that is accepted is
a signed word. The only number that is compared with a bound of its own is the count of the
consumers of a stream: room for their boxes is asked for before the first of them is read, and
more of them than there can be room for are not refused.

## Main definitions

* `Operands.From`: The operands from some number on are still to be read.
* `Operands.constantAt?`, `DispatchCall.consumerCount?`: The constants among the operands.
* `DispatchPlan.Small`: The numbers of a router and of its queues are signed words.

## Theorems

* `Operands.answers_times`, `Operands.answers_toEnd`: Operands that are read again and again.
* `ReadStream.answers_ofArgs` and the like: All operations answer.
-/

namespace StencilRtl

open Fallible

namespace Operands

variable {α : Type} {args : List Expr} {p : Nat}

/-- The operands from number `p` on are still to be read. -/
def From (args : List Expr) (p : Nat) (o : Operands) : Prop := o.rest = args.drop p

/-- Wherever the reading stands, there are operands from there on. -/
theorem from_rest (o : Operands) : From o.rest 0 o := rfl

/-- The constant that is the operand with number `p`, if there is one. -/
def constantAt? (args : List Expr) (p : Nat) : Option Int := args[p]?.bind Expr.constant?

theorem answers_next :
    Answering (From args p) next fun r o => args[p]? = some r.2 ∧ From args (p + 1) o := by
  refine .get_bind fun o hfrom => ?_
  split
  · exact fun _ _ => trivial
  · next e rest hrest =>
    have hdrop : args.drop p = e :: rest := hfrom ▸ hrest
    have hhead : args[p]? = some e := by
      rw [← List.head?_drop, hdrop]
      rfl
    have htail : rest = args.drop (p + 1) := by
      rw [← List.tail_drop, hdrop]
      rfl
    exact .bind (Q := fun _ o => From args (p + 1) o) (fun _ _ => htail) fun _ =>
      .pure fun _ hnext => ⟨hhead, hnext⟩

theorem answers_buffer : Answering (From args p) buffer fun _ => From args (p + 1) := by
  refine answers_next.bind fun ⟨position, e⟩ => ?_
  simp only []
  split
  · exact .pure fun _ h => h.2
  · exact fun _ _ => trivial

theorem answers_text : Answering (From args p) text fun _ => From args (p + 1) := by
  refine answers_next.bind fun ⟨position, e⟩ => ?_
  simp only []
  split
  · exact .pure fun _ h => h.2
  · exact fun _ _ => trivial

/-- A constant that is accepted is one, and a signed word. -/
theorem answers_atLeast (least : Nat) :
    Answering (From args p) (atLeast least) fun n o =>
      (constantAt? args p = some (n : Int) ∧ least ≤ n ∧ n < 2 ^ 63) ∧ From args (p + 1) o := by
  refine answers_next.bind fun ⟨position, e⟩ => ?_
  simp only []
  split
  · exact fun _ _ => trivial
  next value hvalue =>
  split
  · exact fun _ _ => trivial
  next hleast =>
  refine .pure fun o h => ⟨?_, h.2⟩
  have hlt := Expr.lt_of_constant? hvalue
  have hsame : (value.toNat : Int) = value := by omega
  refine ⟨?_, by omega, by omega⟩
  rw [constantAt?, h.1, Option.bind_some, hvalue, hsame]

theorem answers_remaining {P : Operands → Prop} : Answering P remaining fun _ => P :=
  .get_bind fun _ h => .pure fun _ hsame => hsame ▸ h

theorem answers_finish {P : Operands → Prop} : Answering P finish fun _ => P := by
  refine answers_remaining.bind fun count => ?_
  split
  · exact fun _ _ => trivial
  · exact .pure fun _ h => h

/-- Items of `width` operands each. -/
theorem answers_times {item : Reading α} {A : α → Prop} {width : Nat}
    (hitem : ∀ p, Answering (From args p) item fun a o => A a ∧ From args (p + width) o)
    (count p : Nat) : Answering (From args p) (times item count) fun xs o =>
      (∀ x ∈ xs, A x) ∧ From args (p + width * count) o := by
  induction count generalizing p with
  | zero => exact .pure fun _ h => ⟨List.forall_mem_nil _, h⟩
  | succ count ih =>
      refine (hitem p).bind_and fun first hfirst => (ih (p + width)).bind_and fun rest hrest => ?_
      refine .pure fun o h => ⟨List.forall_mem_cons.mpr ⟨hfirst, hrest⟩, ?_⟩
      rw [Nat.mul_succ, Nat.add_comm (width * count), ← Nat.add_assoc]
      exact h

theorem answers_untilEmpty {item : Reading α} {A : α → Prop}
    (hitem : Answering (fun _ => True) item fun a _ => A a ∧ True) (most : Nat) :
    Answering (fun _ => True) (untilEmpty item most) fun xs _ => (∀ x ∈ xs, A x) ∧ True := by
  induction most with
  | zero => exact .pure fun _ _ => ⟨List.forall_mem_nil _, trivial⟩
  | succ most ih =>
      refine answers_remaining.bind fun count => ?_
      split
      · exact .pure fun _ _ => ⟨List.forall_mem_nil _, trivial⟩
      · exact hitem.bind_and fun first hfirst => ih.bind_and fun rest hrest =>
          .pure fun _ _ => ⟨List.forall_mem_cons.mpr ⟨hfirst, hrest⟩, trivial⟩

/-- Items until there are no operands left. -/
theorem answers_toEnd {item : Reading α} {A : α → Prop}
    (hitem : Answering (fun _ => True) item fun a _ => A a ∧ True) :
    Answering (fun _ => True) (toEnd item) fun xs _ => (∀ x ∈ xs, A x) ∧ True :=
  answers_remaining.bind (answers_untilEmpty hitem)

theorem answers_read {reading : Reading α} {P : Operands → Prop} {Q : α → Prop}
    (h : Answering P reading fun a _ => Q a) {call : String} (hP : P (ofCall call args)) :
    Answers (read call reading args) Q := by
  have hrun : read call reading args = reading (ofCall call args) >>= fun r => .ok r.1 := by
    unfold read StateT.run'
    cases reading (ofCall call args) <;> rfl
  rw [hrun]
  exact (h (ofCall call args) hP).bind fun _ h => h

end Operands

open Operands

variable {args : List Expr}

theorem ReadStream.answers_ofArgs : Answers (ReadStream.ofArgs args) fun _ => True := by
  refine answers_read (P := From args 0) (answers_buffer.bind fun _ => answers_buffer.bind
    fun _ => answers_remaining.bind fun count => ?_) rfl
  split
  · exact answers_text.bind fun _ => answers_finish.bind fun _ => .pure fun _ _ => trivial
  · exact answers_finish.bind fun _ => .pure fun _ _ => trivial

/-- The extents of an image that is told are words, one more than a largest value each. -/
theorem WriteStream.answers_ofArgs : Answers (WriteStream.ofArgs args) fun call =>
    ∀ extents ∈ call.storeExtents, ∀ extent ∈ extents, extent < Word.limit := by
  have hlimit : Word.limit = 2 ^ 64 := rfl
  have hextent : Answering (fun _ => True) WriteStream.loopExtent fun n _ =>
      n < Word.limit ∧ True := by
    intro o _
    refine (answers_text.bind fun _ => (answers_atLeast 0).bind_and fun n hn =>
      .pure (Q := fun n _ => n < Word.limit ∧ True) fun _ _ => ⟨?_, trivial⟩) o (from_rest o)
    omega
  refine answers_read (P := From args 0) (answers_buffer.bind fun _ => answers_buffer.bind fun _ =>
    ((answers_toEnd hextent).weaken (fun _ _ => trivial) fun _ _ h => h).bind_and
      fun extents hextents => .pure fun _ _ told htold => ?_) rfl
  simp only [] at htold
  split at htold
  · exact absurd htold (by simp)
  · exact Option.some.inj htold ▸ hextents

/-- The extents of the image of a line buffer are not empty. -/
theorem LineBufferCall.answers_ofArgs : Answers (LineBufferCall.ofArgs args) fun call =>
    ∀ extent ∈ call.storeExtents, 0 < extent := by
  have hextent : Answering (fun _ => True) (atLeast (1 : Nat)) fun n _ => 0 < n ∧ True :=
    fun o _ => (answers_atLeast 1 o (from_rest o)).mono fun _ h => ⟨h.1.2.1, trivial⟩
  refine answers_read (P := From args 0) (answers_buffer.bind fun _ => answers_buffer.bind fun _ =>
    ((answers_toEnd hextent).weaken (fun _ _ => trivial) fun _ _ h => h).bind_and
      fun extents hextents => ?_) rfl
  split
  · exact fun _ _ => trivial
  · exact .pure fun _ _ => hextents

/-- The numbers of a router and of its queues are signed words. -/
structure DispatchPlan.Small (p : DispatchPlan) : Prop where
  signed : p.FitsSigned
  depths : ∀ box ∈ p.consumers, box.depth < 2 ^ 63

namespace DispatchCall

/-- The number of consumers that the operands of a call ask for. It comes behind the number of
    dimensions and three numbers for each of them. -/
def consumerCount? (args : List Expr) : Option Int := do
  let rank ← constantAt? args 1
  constantAt? args (2 + 3 * rank.toNat)

/-- Handing a stream to its consumers is answered, unless there are too many to make room for. -/
theorem answers_ofArgs (hcount : ∀ count ∈ consumerCount? args, count ≤ mostConsumers) :
    Answers (DispatchCall.ofArgs args) fun call => call.plan.Small := by
  have hdimension : ∀ p, Answering (From args p) DispatchCall.dimension fun _ o =>
      True ∧ From args (p + 3) o := fun p =>
    (answers_atLeast 1).bind_and fun _ _ => (answers_atLeast 1).bind_and
      fun _ _ => (answers_atLeast 1).bind_and fun _ _ => .pure fun _ h => ⟨trivial, h⟩
  have hbox : ∀ p, Answering (From args p) DispatchCall.boxDimension fun _ o =>
      True ∧ From args (p + 2) o := fun p =>
    (answers_atLeast 0).bind_and fun _ _ => (answers_atLeast 1).bind_and
      fun _ _ => .pure fun _ h => ⟨trivial, h⟩
  have hconsumer : ∀ rank p, Answering (From args p) (DispatchCall.consumer rank) fun box o =>
      box.depth < 2 ^ 63 ∧ From args (p + (2 + 2 * rank)) o := fun rank p =>
    answers_text.bind fun _ => (answers_atLeast 0).bind_and fun depth hdepth =>
      (answers_times hbox rank (p + 2)).bind_and fun box _ => .pure fun _ h => ⟨hdepth.2.2, by
        rwa [← Nat.add_assoc]⟩
  have hread : Answers (DispatchCall.ofArgs args) fun call =>
      ∀ box ∈ call.plan.consumers, box.depth < 2 ^ 63 := by
    refine answers_read (P := From args 0) (answers_buffer.bind fun _ =>
      (answers_atLeast 1).bind_and fun rank hrank =>
        (answers_times hdimension rank 2).bind_and fun _ _ =>
          (answers_atLeast 1).bind_and fun count hn => ?_) rfl
    -- The number of consumers stands where all operands before it have been read.
    have hasked : consumerCount? args = some (count : Int) := by
      rw [consumerCount?, hrank.1]
      exact hn.1
    have hfew := hcount _ hasked
    rw [if_neg (by omega)]
    exact (answers_times (hconsumer rank) count _).bind_and fun boxes hboxes =>
      answers_finish.bind fun _ => .pure fun _ _ => hboxes
  exact hread.mono_ok fun call hok hdepths => ⟨fitsSigned_of_ofArgs hok, hdepths⟩

end DispatchCall

end StencilRtl
