import StencilRtl.Geometry.Fifo
import StencilRtl.Hardware.Library

/-!
# Queues

The hardware of a first-in first-out queue.

The values wait in a memory with one slot more than the depth. A write and a
read pointer run around the slots, a level counts the values in the memory, and
two flags say whether it is empty or full. A register behind the memory offers
the oldest value, so that no signal of the consumer reaches the producer within
the same cycle.

## Main definitions

* `Queue.body`: The logic of a queue.
* `Queue.make`: The module of a queue component.
-/

namespace StencilRtl

namespace Queue

open Rtl

/-- A pointer that moves to the next slot whenever `move` holds. -/
def pointer (g : FifoGeometry) (register move : String) : Body :=
  Body.register register (.number 0)
    [(.ref move,
      .mux (.hasValue register g.pointerWidth g.depth) (.literal g.pointerWidth 0)
        (.plus register g.pointerWidth 1))]

/-- The update of the level and of the flags derived from it. -/
def levelUpdate (g : FifoGeometry) : Rtl.Stmt :=
  .choose
    [(.ref reset,
      [.update (.ref "level") (.number 0), .update (.ref "empty") (.number 1),
       .update (.ref "full") (.number 0)]),
     (.and (.ref "push") (.not (.ref "pop")),
      [.update (.ref "level") (.plus "level" g.levelWidth 1),
       .update (.ref "empty") (.number 0),
       .when (.hasValue "level" g.levelWidth (g.depth - 1)) [.update (.ref "full") (.number 1)]]),
     (.and (.ref "pop") (.not (.ref "push")),
      [.update (.ref "level") (.binary .sub (.ref "level") (.literal g.levelWidth 1)),
       .update (.ref "full") (.number 0),
       .when (.hasValue "level" g.levelWidth 1) [.update (.ref "empty") (.number 1)]])]
    none

/-- The logic of a queue of values of some width. -/
def body (g : FifoGeometry) (width : Nat) : Body :=
  Body.join
    [Body.memory "mem" width g.slots,
     Body.reg "wr_ptr" g.pointerWidth,
     Body.reg "rd_ptr" g.pointerWidth,
     Body.reg "level" g.levelWidth,
     Body.reg "empty" 1,
     Body.reg "full" 1,
     Body.reg "r_data_out" width,
     Body.reg "r_valid_out" 1,
     Body.net "push" 1 (.and (.ref "in_valid") (.not (.ref "full"))),
     Body.net "pop" 1
       (.and (.or (.ref "out_ready") (.not (.ref "r_valid_out"))) (.not (.ref "empty"))),
     Body.assign "in_ready" (.not (.ref "full")),
     Body.assign "out_value" (.ref "r_data_out"),
     Body.assign "out_valid" (.ref "r_valid_out"),
     Body.enabled (.element "mem" (.ref "wr_ptr")) (.ref "push") (.ref "in_value"),
     Body.enabled (.ref "r_data_out") (.ref "pop") (.element "mem" (.ref "rd_ptr")),
     pointer g "wr_ptr" "push",
     pointer g "rd_ptr" "pop",
     Body.register "r_valid_out" (.number 0)
       [(.ref "pop", .bit true), (.ref "out_ready", .bit false)],
     Body.item (.process .clocked [levelUpdate g])]

/-- Define the module of a queue of some depth and return its name. -/
def make (c : Component) (depth : Nat) : Making String := do
  let shape ← c.portShape "in"
  let g ← FifoGeometry.ofDepth depth
  let name := s!"FIFO_{shape.typeName}_{depth}"
  let parameters : Parameters := .queue shape.elem shape.extents depth
  if ← Making.needs name parameters then
    let ports ← c.modulePorts
    let body ← body g (← shape.dataWidth)
    Making.define name parameters [s!"FIFO of depth {depth} carrying {shape.text}"] ports body
  return name

end Queue

end StencilRtl
