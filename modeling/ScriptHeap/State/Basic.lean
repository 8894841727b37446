import ScriptHeap.Interner

/-!
# Abstract states

A state holds the registers and the heap of one function activation, and two kinds of facts about
registers that hold on every path: the node that wrote a register, and a property that a register
equals.

Objects may be shared between states. A state changes an object only after it has made it its own.
-/

namespace ScriptHeap

/-- The label of the global object. No node has its number. -/
def Label.global : Label :=
  ⟨18446744073709551615, .object, none⟩

/-- An object in the heap of a state. -/
structure Cell where
  object : HeapObject
  /-- The states that hold the object. -/
  storage : Storage
deriving DecidableEq, Inhabited

namespace Cell

/-- The object of a cell, made ready for a change: an object that is frozen, or that another state
    holds too, is replaced by a copy. -/
def ready (cell : Cell) (copyOnWriteDisabled : Bool) : HeapObject :=
  if cell.object.writable && cell.storage = .owned then cell.object
  else if copyOnWriteDisabled then cell.object.deepCopy
  else cell.object.copy

/-- A cell whose object is frozen. An object that was not is replaced by a frozen copy. -/
def frozen (cell : Cell) : Cell :=
  if cell.object.writable then ⟨cell.object.freeze, .owned⟩ else cell

end Cell

/-- An abstract program state. -/
structure State where
  registers : FinMap Register Value
  heap : FinMap Label Cell
  context : CallString
  /-- The function that the state belongs to. -/
  function : Nat
  /-- The node that wrote a register on every path. -/
  mustDefs : FinMap Register Nat
  /-- The property that a register equals on every path. -/
  mustEquals : FinMap Register (Label × Key)
  /-- Whether an object is copied in full before it is changed. -/
  copyOnWriteDisabled : Bool

namespace State

/-- A state at the start of a function, with an empty global object. -/
def initial (t : Interner) (function : Nat) (context : CallString) (copyOnWriteDisabled : Bool) :
    State × Interner :=
  let template := t.template .absentModified
  let global : Cell := ⟨template, template.storage⟩
  (⟨∅, FinMap.empty.insert .global global, context, function, ∅, ∅, copyOnWriteDisabled⟩,
    t.addLabel .global)

/-! ### Registers -/

/-- The value of a register, which must have been written. -/
def readRegister (s : State) (r : Register) : Except Error Value :=
  match s.registers.get? r with
  | some v => .ok v
  | none => .error (.analysis (.undefinedRegister r))

/-- Write a register. It no longer equals a property. -/
def writeRegister (s : State) (r : Register) (v : Value) : State :=
  { s with registers := s.registers.insert r v, mustEquals := s.mustEquals.erase r }

/-- Note the node that wrote a register. -/
def addMustDef (s : State) (r : Register) (node : Nat) : State :=
  { s with mustDefs := s.mustDefs.insert r node }

/-- Note the property that a register equals. -/
def addMustEquals (s : State) (r : Register) (label : Label) (key : Key) : State :=
  { s with mustEquals := s.mustEquals.insert r (label, key) }

/-! ### Objects -/

/-- The object of a label. -/
def object? (s : State) (label : Label) : Option HeapObject :=
  (s.heap.get? label).map Cell.object

/-- Whether two states hold the same object under a label. -/
def sharesObject (s other : State) (label : Label) : Bool :=
  match s.heap.get? label, other.heap.get? label with
  | some a, some b => a.storage = b.storage && a.storage ≠ .owned
  | _, _ => false

/-- Change the object of a label, after making it the state's own. -/
def modifyObject (s : State) (label : Label) (f : HeapObject → Except Error HeapObject) :
    Except Error State :=
  match s.heap.get? label with
  | none => .error (.analysis (.noHeapObject label))
  | some cell => do
    let object ← f (cell.ready s.copyOnWriteDisabled)
    return { s with heap := s.heap.insert label ⟨object, .owned⟩ }

/-- Store a new object. A label that has an object already stands for both afterwards. -/
def newObject (s : State) (label : Label) (o : HeapObject) : State :=
  let object :=
    match s.object? label with
    | some existing => existing.join o
    | none => o
  { s with heap := s.heap.insert label ⟨object, .owned⟩ }

/-! ### Properties -/

/-- The objects of some labels, in the order of the labels. -/
def objectsOf (s : State) (labels : LabelSet) : List HeapObject :=
  labels.toList.filterMap s.object?

/-- Read a property of every object of some labels. -/
def readProperty (s : State) (labels : LabelSet) (key : Key) : Value :=
  (s.objectsOf labels).foldl (fun v o => v.join (o.shape.get key)) .none

/-- Everything that a property of an object can read as, for a name that is not known. -/
def anyPropertyValues (shape : Shape) : List Value :=
  shape.defaultNumeric :: shape.defaultOther :: shape.properties.values

/-- Read any property of every object of some labels. -/
def readAnyProperty (s : State) (labels : LabelSet) : Value :=
  (s.objectsOf labels).foldl (fun v o => (anyPropertyValues o.shape).foldl Value.join v) .none

/-- Give a label without an object an empty one. -/
def ensureObject (s : State) (label : Label) : State :=
  if s.heap.contains label then s
  else { s with heap := s.heap.insert label ⟨.ofShape .absentModified, .owned⟩ }

/-- Write a property of the object of a label: in the place of what it held, or joined to it. -/
def storeProperty (strong : Bool) (key : Key) (v : Value) (s : State) (label : Label) :
    Except Error State :=
  (s.ensureObject label).modifyObject label fun o =>
    o.setProperty key (if strong then v else (o.shape.get key).join v)

/-- Write a property of every object of some labels. With one label the old value goes, with several
    it stays possible. -/
def writeProperty (s : State) (labels : LabelSet) (key : Key) (v : Value) : Except Error State :=
  labels.toList.foldlM (storeProperty (labels.size = 1) key v.joinModified) s

/-- Write a property of every object of some labels, with the old values still possible. -/
def weakWriteProperty (s : State) (labels : LabelSet) (key : Key) (v : Value) :
    Except Error State :=
  labels.toList.foldlM (storeProperty false key v.joinModified) s

/-- Write every property of the object of a label, with the old values still possible. -/
def storeAnyProperty (v : Value) (s : State) (label : Label) : Except Error State :=
  if s.heap.contains label then
    s.modifyObject label fun o => do
      let o ← o.setDefaultNumeric (o.shape.defaultNumeric.join v)
      let o ← o.setDefaultOther (o.shape.defaultOther.join v)
      o.setProperties (o.shape.properties.mapValues (·.join v))
  else .ok s

/-- Write a property of unknown name of every object of some labels. Labels without an object are
    passed over. -/
def writeAnyProperty (s : State) (labels : LabelSet) (v : Value) : Except Error State :=
  labels.toList.foldlM (storeAnyProperty v.joinAbsent.joinModified) s

/-! ### Sharing -/

/-- Freeze every object, so that the state can be shared. -/
def freezeHeap (s : State) : State :=
  { s with heap := s.heap.mapValues Cell.frozen }

end State

end ScriptHeap
