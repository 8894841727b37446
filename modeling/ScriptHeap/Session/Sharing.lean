import ScriptHeap.State.Join
import ScriptHeap.State.Variables

/-!
# Sharing between named objects and states

A session keeps objects and states under names. Copies share property maps, and clones of a state
share whole objects, until one side changes what it shares. `Storage` says of each map and of each
object whether it has one holder; this module keeps that information exact.

Before something is copied, what it holds alone is given a number, which the copy then carries too
(`share`). After a change, what only one holder is left of belongs to that holder alone (`settle`).
-/

namespace ScriptHeap

namespace Storage

/-- Give storage a number, unless it has one or belongs to a template. -/
def share (storage : Storage) (fresh : Nat) : Storage × Nat :=
  match storage with
  | .owned => (.shared fresh, fresh + 1)
  | other => (other, fresh)

/-- Storage that one holder is left of belongs to it alone. -/
def settle (holders : List Storage) (storage : Storage) : Storage :=
  if holders.count storage ≤ 1 then .owned else storage

end Storage

/-- Objects and states under names, and the interner that they use. -/
structure Session where
  interner : Interner
  objects : FinMap String HeapObject
  states : FinMap String State
  /-- The next number for shared storage. -/
  fresh : Nat

namespace Session

/-- The session without objects and states. -/
def empty : Session := ⟨.initial, ∅, ∅, 0⟩

instance : Inhabited Session := ⟨empty⟩

/-- Number the property map of an object. -/
def shareObject (o : HeapObject) (fresh : Nat) : HeapObject × Nat :=
  let (storage, fresh) := o.storage.share fresh
  ({ o with storage }, fresh)

/-- Number an object in a heap, and its property map. -/
def shareCell (cell : Cell) (fresh : Nat) : Cell × Nat :=
  let (object, fresh) := shareObject cell.object fresh
  let (storage, fresh) := cell.storage.share fresh
  (⟨object, storage⟩, fresh)

/-- Number everything in a heap. -/
def shareHeap (heap : FinMap Label Cell) (fresh : Nat) : FinMap Label Cell × Nat :=
  heap.toList.foldl
    (fun acc entry =>
      let (cell, fresh) := shareCell entry.2 acc.2
      (acc.1.insert entry.1 cell, fresh))
    (heap, fresh)

/-- The templates of the current run, which hold storage of their own. -/
def templateStorages (session : Session) : List Storage :=
  Template.all.map (.template session.interner.run)

/-- Every cell of every state. -/
def cells (session : Session) : List Cell :=
  session.states.values.flatMap fun s => s.heap.values

/-- The holders of property maps. -/
def mapHolders (session : Session) : List Storage :=
  session.templateStorages ++ session.objects.values.map HeapObject.storage
    ++ session.cells.map fun cell => cell.object.storage

/-- The holders of whole objects in heaps. -/
def objectHolders (session : Session) : List Storage :=
  session.templateStorages ++ session.cells.map Cell.storage

/-- Let all storage that one holder is left of belong to that holder alone. -/
def settle (session : Session) : Session :=
  let settleMap (o : HeapObject) : HeapObject :=
    { o with storage := o.storage.settle session.mapHolders }
  let settleCell (cell : Cell) : Cell :=
    ⟨settleMap cell.object, cell.storage.settle session.objectHolders⟩
  { session with
    objects := session.objects.mapValues settleMap
    states := session.states.mapValues fun s => { s with heap := s.heap.mapValues settleCell } }

/-- Store an object under a name. -/
def setObject (session : Session) (name : String) (o : HeapObject) : Session :=
  { session with objects := session.objects.insert name o }.settle

/-- Store a state under a name. -/
def setState (session : Session) (name : String) (s : State) : Session :=
  { session with states := session.states.insert name s }.settle

/-- The object of a name. -/
def object (session : Session) (name : String) : Except Error HeapObject :=
  match session.objects.get? name with
  | some o => .ok o
  | none => .error (.custom ("No object named " ++ name))

/-- The state of a name. -/
def state (session : Session) (name : String) : Except Error State :=
  match session.states.get? name with
  | some s => .ok s
  | none => .error (.custom ("No state named " ++ name))

/-- The object of a name, with its property map ready to be shared. -/
def sharedObject (session : Session) (name : String) : Except Error (HeapObject × Session) := do
  let (o, fresh) := shareObject (← session.object name) session.fresh
  return (o, { session with objects := session.objects.insert name o, fresh })

/-- The state of a name, with its heap ready to be shared. -/
def sharedState (session : Session) (name : String) : Except Error (State × Session) := do
  let s ← session.state name
  let (heap, fresh) := shareHeap s.heap session.fresh
  let s := { s with heap }
  return (s, { session with states := session.states.insert name s, fresh })

/-- Whether two named states hold the same object under a label. -/
def sharesObject (session : Session) (name other : String) (label : Label) :
    Except Error Bool := do
  let a ← session.state name
  let b ← session.state other
  return if name = other then a.heap.contains label else a.sharesObject b label

end Session

end ScriptHeap
