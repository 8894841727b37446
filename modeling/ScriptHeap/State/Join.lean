import ScriptHeap.State.Basic

/-!
# Joining states

Where paths meet, their states are joined: registers and objects slot by slot, while a fact about a
register stays only if it holds on both sides. Joining says whether a register or an object of the
first state changed.
-/

namespace ScriptHeap.State

/-- Join a register of another state into the registers. -/
def joinRegister (acc : FinMap Register Value × Bool) (entry : Register × Value) :
    FinMap Register Value × Bool :=
  let (registers, changed) := acc
  match registers.get? entry.1 with
  | some existing =>
    let joined := existing.join entry.2
    if existing = entry.2 || joined = existing then (registers, changed)
    else (registers.insert entry.1 joined, true)
  | none => (registers.insert entry.1 entry.2, true)

/-- Join an object of another state into the heap. An object that only the other state has is taken
    over once it is frozen. -/
def joinCell (acc : FinMap Label Cell × Bool) (entry : Label × Cell) : FinMap Label Cell × Bool :=
  let (heap, changed) := acc
  match heap.get? entry.1 with
  | some existing =>
    let joined := existing.object.join entry.2.object
    if existing.object.shape = entry.2.object.shape || joined.shape = existing.object.shape then
      (heap, changed)
    else (heap.insert entry.1 ⟨joined.freeze, .owned⟩, true)
  | none => (heap.insert entry.1 entry.2.frozen, true)

/-- The entries that two maps agree on. -/
def agreeing {ν : Type} [DecidableEq ν] (a b : FinMap Register ν) : FinMap Register ν :=
  a.filter fun r v => b.get? r = some v

/-- Join another state into a state. The result says whether a register or an object changed. -/
def join (s other : State) : Bool × State :=
  let (registers, registersChanged) :=
    other.registers.toList.foldl joinRegister (s.registers, false)
  let (heap, heapChanged) := other.heap.toList.foldl joinCell (s.heap, false)
  (registersChanged || heapChanged,
    { s with
      registers
      heap
      mustDefs := agreeing s.mustDefs other.mustDefs
      mustEquals := agreeing s.mustEquals other.mustEquals })

end ScriptHeap.State
