import ScriptHeap.Analysis.Entries
import ScriptHeap.Transfer.Dispatcher

/-!
# The fixed point of an analysis

An analysis starts at the entry of the program body and, since calls are not resolved, at the entry
of every other function as if an unknown caller had called it. It then works on the waiting points
until there are none: the block is run on its entry state, and the outcome flows into the
successors. The number of rounds is bounded by an option.

An error of the host's side ends the analysis, unless the options let it go on; such errors are then
part of the result, which may miss behaviour from there on.
-/

namespace ScriptHeap

/-- What is analysed, and by which rules. -/
structure Analysis (σ : Type) where
  setting : Setting σ
  dispatcher : Dispatcher σ

/-- A fixed point. -/
structure FixedPoint where
  run : Nat
  states : FinMap ProgramPoint State
  /-- How many points were worked on. -/
  iterations : Nat
  /-- The errors that the analysis went on after. -/
  unsound : List Error

namespace FixedPoint

/-- Whether no error was passed over. -/
def isSound (result : FixedPoint) : Bool :=
  result.unsound.isEmpty

end FixedPoint

/-- A step of an analysis. What has happened to the world stays also where it fails. -/
abbrev Analyzing (σ : Type) := ExceptT Error (StateM (World σ))

/-- Let states flow into their points, one after the other. -/
def Entries.flowAll (entries : Entries) (order : List Nat) (pushes : List Push) : Entries :=
  pushes.foldl (fun entries push => entries.flow order push.state push.point) entries

/-- How far an analysis has come. -/
structure Progress where
  entries : Entries
  iterations : Nat
  unsound : List Error

namespace Analysis

variable {σ α : Type}

/-- Take the result of a pure step. -/
def ofResult (r : Except Error α) : Analyzing σ α := ExceptT.mk (pure r)

/-- Use the interner. -/
def interning (f : Interner → α × Interner) : Analyzing σ α :=
  modifyGet fun world =>
    let (a, interner) := f world.interner
    (a, { world with interner })

/-- The state at the start of a function. -/
def startState (a : Analysis σ) (f : Function) : Analyzing σ State :=
  interning fun t => State.initial t f.index .main a.setting.options.copyOnWriteDisabled

/-- Let the states at the starts of the functions flow into their entries. -/
def start (a : Analysis σ) (order : List Nat) (main : Function) : Analyzing σ Entries := do
  let entries := Entries.empty.flow order (← a.startState main) ⟨main.entry, .main⟩
  (a.setting.program.functions.filter fun f => !f.isMain).foldlM
    (fun entries f => do
      let s ← a.startState f
      let arguments := List.replicate f.parameters.length Value.anyPrimitive
      let s ← interning fun t => s.enterFunction t f arguments
      return entries.flow order s ⟨f.entry, .main⟩)
    entries

/-- Run a block on a state. The result has the outcome, the state after it and the pushed states. -/
def transfer (a : Analysis σ) (block : Block) (s : State) :
    Analyzing σ (Except Error Handover × State × List Push) :=
  modifyGet fun world =>
    let (outcome, m) := (a.dispatcher.transferBlock a.setting block).run.run ⟨world, s, []⟩
    ((outcome, m.state, m.pushes), m.toWorld)

/-- Work on a point. -/
def work (a : Analysis σ) (run : Nat) (order : List Nat) (p : Progress) (point : ProgramPoint) :
    Analyzing σ Progress := do
  match p.entries.states.get? point with
  | none => throw (.invariant (.noState point))
  | some entry =>
    let block ← ofResult (a.setting.program.block point.block)
    let (outcome, s, pushes) ← a.transfer block entry
    let entries := p.entries.flowAll order pushes
    match outcome with
    | .ok .done => return { p with entries }
    | .ok .pending =>
      let successors ← ofResult (a.setting.program.successors point.block)
      let handedOn := successors.map fun block => ⟨s.freezeHeap, ⟨block, point.context⟩⟩
      return { p with entries := entries.flowAll order handedOn }
    | .error e =>
      let e := e.locate run point
      if e.isFatal || !a.setting.options.continueOnHostError then throw e
      else return { p with entries, unsound := p.unsound ++ [e] }

/-- Work on waiting points until there are none, for at most a number of rounds. -/
def iterate (a : Analysis σ) (run : Nat) (order : List Nat) (rounds : Nat) (p : Progress) :
    Analyzing σ Progress := do
  match p.entries.next? with
  | none => return p
  | some (point, entries) =>
    match rounds with
    | 0 => throw (.analysis (.noFixedPoint a.setting.options.maxIterations))
    | rounds + 1 =>
      let p ← a.work run order { p with entries, iterations := p.iterations + 1 } point
      a.iterate run order rounds p

/-- Run an analysis, under a new run of the interner. -/
def fixedPoint (a : Analysis σ) : Analyzing σ FixedPoint := do
  let run ← interning fun t => (t.reset.run, t.reset)
  ofResult a.setting.program.check
  let main ← ofResult a.setting.program.main
  let order ← ofResult (a.setting.program.graph.reversePostOrder main.entry)
  let entries ← a.start order main
  let p ← a.iterate run order a.setting.options.maxIterations ⟨entries, 0, []⟩
  return ⟨run, p.entries.states, p.iterations, p.unsound⟩

end Analysis

end ScriptHeap
