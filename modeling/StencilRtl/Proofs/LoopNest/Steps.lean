import StencilRtl.Netlist.LoopNest
import StencilRtl.Proofs.Fallible

/-!
# Steps of a Nest

What each step of reading a nest has checked and what it changes.

A nest is a record that the statements inside a loop are read into, one step at a time. Here each
step is taken apart once. What later modules say of a nest, such as which streams it reads, which
loops and actions it has and under which conditions it writes, they read off these equations.

## Theorems

* `enterLoop_ok`, `realize_ok`, `provide_ok`, `bind_ok`: Statements inside a nest.
* `read_ok`, `write_ok`: Streams of a nest.
* `finish_ok`: The stage a nest ends as.
-/

namespace StencilRtl

namespace LoopNest

variable {n n' : LoopNest}

theorem constantBound_ok {name bound : String} {e : Expr} {v : Int}
    (h : constantBound name bound e = .ok v) : e.constant? = some v := by
  unfold constantBound at h
  split at h
  · next v' hv => rw [hv, Except.ok.inj h]
  · exact absurd h (by simp [unsupported])

/-- A loop that is entered starts at no negative number and runs at least once. It becomes a scan
    loop only as long as there is no window loop. -/
theorem enterLoop_ok {name : String} {min extent : Expr} {body : Stmt}
    (h : n.enterLoop name min extent body = .ok n') :
    ∃ first count, min.constant? = some first ∧ extent.constant? = some count ∧ 0 ≤ first ∧
      0 < count ∧ ((n.window = [] ∧
        n' = { n with scan := n.scan ++ [⟨printName name, first.toNat, count.toNat⟩] }) ∨
      n' = { n with window := n.window ++ [⟨printName name, first.toNat, count.toNat⟩] }) := by
  rcases Fallible.bind_ok.mp h with ⟨first, hfirst, h⟩
  rcases Fallible.bind_ok.mp h with ⟨count, hcount, h⟩
  split at h
  · rcases Fallible.bind_ok.mp h with ⟨_, _, hfail⟩
    exact absurd hfail (by simp [unsupported])
  next hrange =>
  -- Both bounds are known here, and what is left is on which list the loop goes.
  refine ⟨first, count, constantBound_ok hfirst, constantBound_ok hcount, by omega, by omega, ?_⟩
  simp only [] at h
  split at h
  · split at h
    · next hwindow => exact .inl ⟨hwindow, (Except.ok.inj h).symm⟩
    · exact absurd h (by simp [unsupported])
  · exact .inr (Except.ok.inj h).symm

theorem realize_ok {name : String} {types : List ScalarType} {bounds : List Interval}
    (h : n.realize name types bounds = .ok n') :
    ∃ shape, stencilShape name types bounds = .ok shape ∧
      (∀ l ∈ n.realized, l.name ≠ printName name) ∧
      n' = { n with realized := n.realized ++ [⟨printName name, shape⟩] } := by
  rcases Fallible.bind_ok.mp h with ⟨shape, hshape, h⟩
  simp only [] at h
  split at h
  · exact absurd h (by simp [unsupported])
  · next hnone =>
    refine ⟨shape, hshape, fun l hl hname => hnone ?_, (Except.ok.inj h).symm⟩
    exact List.any_eq_true.mpr ⟨l, hl, decide_eq_true hname⟩

theorem provide_ok {name : String} {values args : List Expr}
    (h : n.provide name values args = .ok n') :
    isStencilName name = true ∧ ∃ value, values = [value] ∧
      n' = { n with actions := n.actions ++ [.provide (printName name) args value] } := by
  unfold provide at h
  split at h
  · exact absurd h (by simp [unsupported])
  next hname =>
  split at h
  · next value => exact ⟨by simpa using hname, value, rfl, (Except.ok.inj h).symm⟩
  · exact absurd h (by simp [unsupported])

theorem bind_ok {name : String} {value : Expr} (h : n.bind name value = .ok n') :
    printName name ∉ n.bound ∧
      n' = { n with
        bound := n.bound ++ [printName name]
        actions := n.actions ++ [.letIn (printName name) value] } := by
  unfold bind at h
  simp only [] at h
  split at h
  · exact absurd h (by simp [unsupported])
  · next hfree => exact ⟨hfree, (Except.ok.inj h).symm⟩

/-- A stream is read into the stencil it has been read into before, or it is a new input. -/
theorem read_ok {call : ReadStream} {shape : Shape} (h : n.read call shape = .ok n') :
    ((∃ i ∈ n.inputs, i.port = call.stream ∧ i.stencil = call.stencil) ∧ n' = n) ∨
      ((∀ i ∈ n.inputs, i.port ≠ call.stream) ∧
        n' = { n with inputs := n.inputs ++ [⟨call.stream, call.stencil, shape⟩] }) := by
  unfold read at h
  split at h
  · next before hbefore =>
    split at h
    · next hstencil =>
      have hport : before.port = call.stream := by simpa using List.find?_some hbefore
      exact .inl ⟨⟨before, List.mem_of_find?_eq_some hbefore, hport, hstencil⟩,
        (Except.ok.inj h).symm⟩
    · exact absurd h (by simp [unsupported])
  · next hnone =>
    refine .inr ⟨fun i hi => ?_, (Except.ok.inj h).symm⟩
    simpa using List.find?_eq_none.mp hnone i hi

/-- A nest that has written refuses to write again. -/
theorem write_ok {call : WriteStream} {shape : Shape} (h : n.write call shape = .ok n') :
    n.output = none ∧ n' = { n with
      writeGuard := conjunction n.guards
      output := some ⟨⟨call.stream, call.stencil, shape⟩, call.storeExtents, call.port⟩ } := by
  unfold write at h
  split at h
  · exact absurd h (by simp [unsupported])
  · next hnone => exact ⟨hnone, (Except.ok.inj h).symm⟩

/-- A nest ends as a stage if it has written, and the stage has passed its check. -/
theorem finish_ok {params : List (String × Shape)} {plan : StagePlan} {output : NestOutput}
    (h : n.finish params = .ok (plan, output)) :
    n.output = some output ∧ plan.validate = .ok () ∧
      plan = ⟨n.producer, n.scan, n.window, n.inputs, output.port, n.writeGuard, params,
        n.locals output, n.actions, outputLatency⟩ := by
  unfold finish at h
  split at h
  · exact absurd h (by simp [unsupported])
  · next hsome =>
    rcases Fallible.bind_ok.mp h with ⟨_, hvalid, hpair⟩
    rcases Except.ok.inj hpair with ⟨⟩
    exact ⟨hsome, hvalid, rfl⟩

end LoopNest

end StencilRtl
