import StencilRtl.Width

/-!
# Loop control

How the controller of a pipeline stage walks its loops.

A stage has *scan* loops, which move from one output window to the next, and
*window* loops, which assemble one window. Both are nests of counters, the last
variable moving fastest. The controller starts a scan step when every input is
valid and the writer has space, walks the window positions of that step, and
after the last scan step waits until the datapath has drained.

## Main definitions

* `LoopVar`: A loop variable with constant bounds.
* `LoopControl`: The loops of a stage.
* `LoopPhase`, `LoopState`: What the controller remembers.
* `LoopState.tick`: One clock cycle.
-/

namespace StencilRtl

/-- A loop variable running from `min` through `extent` values. -/
structure LoopVar where
  name : String
  min : Nat
  extent : Nat
  deriving DecidableEq, Repr, Inhabited

namespace LoopVar

/-- The last value of the variable. -/
def max (v : LoopVar) : Fallible Nat := do
  Word.sub (← Word.add v.min v.extent) 1

/-- The width of the variable's counter. -/
def width (v : LoopVar) : Fallible Nat := do
  bitsToHold (← v.max)

/-- The register counting the variable. -/
def register (v : LoopVar) : String := "r_" ++ v.name

end LoopVar

/-- The loops of a stage, outermost first, and the number of cycles between the
    last load and the last output. -/
structure LoopControl where
  scan : List LoopVar
  window : List LoopVar
  latency : Nat
  deriving DecidableEq, Repr, Inhabited

namespace LoopControl

/-- All variables, the scan loops first. -/
def vars (c : LoopControl) : List LoopVar := c.scan ++ c.window

end LoopControl

/-- What the controller is doing. -/
inductive LoopPhase where
  /-- Waiting for the start. -/
  | idle
  /-- About to begin a scan step. -/
  | first
  /-- Walking the other window positions of a scan step. -/
  | rest
  /-- Waiting for the datapath to drain. -/
  | flush
  deriving DecidableEq, Repr, Inhabited

namespace LoopPhase

/-- The number a phase is encoded by. -/
def code : LoopPhase → Nat
  | .idle => 0
  | .first => 1
  | .rest => 2
  | .flush => 3

/-- The width of the register holding the phase. -/
def width : Nat := 2

end LoopPhase

/-- What the surroundings tell the controller in one cycle. -/
structure LoopInputs where
  start : Bool
  inValid : Bool
  space : Bool
  drained : Bool
  deriving DecidableEq, Repr, Inhabited

/-- What the controller tells its surroundings in one cycle. -/
structure LoopOutputs where
  load : Bool
  last : Bool
  done : Bool
  scan : List Nat
  window : List Nat
  deriving DecidableEq, Repr, Inhabited

/-- What the controller remembers from one cycle to the next. -/
structure LoopState where
  phase : LoopPhase
  scan : List Nat
  window : List Nat
  flush : Nat
  deriving DecidableEq, Repr, Inhabited

namespace LoopState

/-- The state after a reset: idle, with every variable at its first value. -/
def initial (c : LoopControl) : LoopState :=
  ⟨.idle, c.scan.map LoopVar.min, c.window.map LoopVar.min, 0⟩

/-- Whether every counter is at the last value of its variable. -/
def allAtMax : List LoopVar → List Nat → Fallible Bool
  | v :: vars, counter :: counters => do
      if counter = (← v.max) then allAtMax vars counters else return false
  | _, _ => .ok true

/-- One move of a nest of counters, the last one first. Returns whether the move
    has to go on with the variable outside, and the counters after it. -/
def stepNest : List LoopVar → List Nat → Fallible (Bool × List Nat)
  | v :: vars, counter :: counters => do
      let (carry, counters) ← stepNest vars counters
      if carry then
        if counter = (← v.max) then return (true, v.min :: counters)
        else return (false, (← Word.add counter 1) :: counters)
      else return (false, counter :: counters)
  | _, counters => .ok (true, counters)

/-- The counters after one move of a nest. -/
def moved (vars : List LoopVar) (counters : List Nat) : Fallible (List Nat) := do
  return (← stepNest vars counters).2

/-- One clock cycle: what the controller says, and its state after the cycle. -/
def tick (c : LoopControl) (s : LoopState) (i : LoopInputs) :
    Fallible (LoopOutputs × LoopState) := do
  let begins := s.phase = .first && i.inValid && i.space
  let goesOn := s.phase = .rest && i.space
  let load := begins || goesOn
  let last ← if load then allAtMax c.window s.window else pure false
  let scanDone ← allAtMax c.scan s.scan
  let done := s.phase = .flush && c.latency ≤ s.flush && i.drained
  let outputs : LoopOutputs := ⟨load, last, done, s.scan, s.window⟩
  let phase :=
    if s.phase = .idle && i.start then .first
    else if begins && !last then .rest
    else if last && scanDone then .flush
    else if last then .first
    else if done then .idle
    else s.phase
  if i.start then return (outputs, { initial c with phase })
  else
    let window ← if load then moved c.window s.window else pure s.window
    let scan ← if last then moved c.scan s.scan else pure s.scan
    let flush := if s.phase = .flush && s.flush < c.latency then s.flush + 1 else s.flush
    return (outputs, ⟨phase, scan, window, flush⟩)

end LoopState

end StencilRtl
