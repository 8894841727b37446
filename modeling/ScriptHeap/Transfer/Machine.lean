import ScriptHeap.Host.Basic
import ScriptHeap.Options
import ScriptHeap.Program.FlowGraph
import ScriptHeap.State.Variables

/-!
# The machine behind transfer rules

A transfer rule runs one node of a block on a machine: the abstract state, the interner, the memory
of the host, a log of what happened, and the states that were pushed to other blocks. A rule that
fails leaves the machine as it was at the failure.
-/

namespace ScriptHeap

/-- What is logged while an analysis runs. -/
inductive Event where
  /-- A property of some objects was written. -/
  | propertyWrite (node : Nat) (labels : LabelSet) (key : Key)
  /-- A variable was read or written. -/
  | variable (node : Nat) (name : String) (v : Value) (context : CallString)
  /-- The host was asked about a member of a class. -/
  | hostQuery (node : Nat) (className member : String)
deriving DecidableEq

/-- A state that flows into a block. -/
structure Push where
  state : State
  point : ProgramPoint

/-- What lasts from one block to the next. -/
structure World (σ : Type) where
  interner : Interner
  host : σ
  events : List Event

/-- What a transfer rule works on. -/
structure Machine (σ : Type) extends World σ where
  state : State
  pushes : List Push

/-- What a transfer rule may consult and not change. -/
structure Setting (σ : Type) where
  host : Host σ
  program : FlowGraph
  options : Options

/-- Who hands on the state after a node. -/
inductive Handover where
  /-- The driver: to the next node, or from the end of the block to every successor. -/
  | pending
  /-- The rule has done so. The rest of the block is skipped. -/
  | done
deriving DecidableEq, Repr, Inhabited

/-- A computation on a machine. -/
abbrev Transfer (σ : Type) := ExceptT Error (StateM (Machine σ))

/-- A transfer rule. -/
abbrev Rule (σ : Type) := Setting σ → Node → Transfer σ Handover

namespace Transfer

variable {σ α : Type}

/-- Take the result of a pure step. -/
def ofResult (r : Except Error α) : Transfer σ α := ExceptT.mk (pure r)

/-- Run a computation and take its failure as a result. -/
def attempt (x : Transfer σ α) : Transfer σ (Except Error α) :=
  ExceptT.mk (do return .ok (← x.run))

/-- The abstract state. -/
def state : Transfer σ State := return (← get).state

/-- Change the abstract state. -/
def modifyState (f : State → State) : Transfer σ Unit :=
  modify fun m => { m with state := f m.state }

/-- Change the abstract state by a step that may fail. -/
def changeState (f : State → Except Error State) : Transfer σ Unit := do
  let s ← ofResult (f (← state))
  modifyState fun _ => s

/-- Change the interner. -/
def intern (f : Interner → Interner) : Transfer σ Unit :=
  modify fun m => { m with interner := f m.interner }

/-- Log an event. -/
def notify (event : Event) : Transfer σ Unit :=
  modify fun m => { m with events := m.events ++ [event] }

/-- Call the host. -/
def ask (call : HostCall σ α) : Transfer σ α := do
  let (answer, host) := call.run.run (← get).host
  modify fun m => { m with host }
  ofResult answer

/-- Put the labels of the run in the place of those of a value from the host. -/
def internValue (v : Value) : Transfer σ Value := do
  let (v, interner) := (← get).interner.internValue v
  intern fun _ => interner
  return v

/-- Call the host for a value, which gets the labels of the run. -/
def askValue (call : HostCall σ Value) : Transfer σ Value := do
  internValue (← ask call)

/-- The value of a register. -/
def readRegister (r : Register) : Transfer σ Value := do
  ofResult ((← state).readRegister r)

/-- The values of some registers. -/
def readRegisters (rs : List Register) : Transfer σ (List Value) :=
  rs.mapM readRegister

/-- Write the result of a node. -/
def writeResult (node : Node) (r : Register) (v : Value) : Transfer σ Unit :=
  modifyState fun s => (s.writeRegister r v).addMustDef r node.index

/-- Write the result of a node that may have none. -/
def writeResult? (node : Node) (r : Option Register) (v : Value) : Transfer σ Unit :=
  match r with
  | some r => writeResult node r v
  | none => return ()

/-- Store a new object without properties under a label. -/
def allocate (label : Label) : Transfer σ Unit := do
  intern (·.addLabel label)
  modifyState fun s => s.newObject label (.ofShape .absentModified)

/-- The function that the state belongs to. -/
def currentFunction (setting : Setting σ) : Transfer σ Function := do
  ofResult (setting.program.function (← state).function)

/-- The key of a property access, where its name is known. -/
def propertyKey? : PropertyName → Transfer σ (Option Key)
  | .fixed name => return some (.name name)
  | .dynamic r => return (← readRegister r).exactString?.map .name

/-- Push the state to the only successor of a block. -/
def pushOn (setting : Setting σ) (node : Node) : Transfer σ Unit := do
  let successor ← ofResult (setting.program.singleSuccessor node.block)
  modifyState State.freezeHeap
  modify fun m =>
    { m with pushes := m.pushes ++ [⟨m.state, ⟨successor, m.state.context⟩⟩] }

/-- The failure of a rule at an operation of another kind. -/
def unexpected (node : Node) : Transfer σ α :=
  throw (.invariant (.unexpectedOperation node.kind node.text))

end Transfer

end ScriptHeap
