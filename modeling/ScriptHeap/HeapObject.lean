import ScriptHeap.Error
import ScriptHeap.Shape.Printer

/-!
# Heap objects

A heap object is a shape that can be changed until it is frozen. Its property map is storage that
objects may share: a copy shares the map of the object it was made from, and an object that writes
its map gets storage of its own.

Every change of a frozen object fails and leaves it as it is.
-/

namespace ScriptHeap

/-- The shapes that objects start from. -/
inductive Template where
  | none
  | noneModified
  | absentModified
  | unknown
deriving DecidableEq, Repr, Inhabited

namespace Template

/-- Every template. -/
def all : List Template := [.none, .noneModified, .absentModified, .unknown]

/-- The shape of a template. -/
def shape : Template → Shape
  | .none => .none
  | .noneModified => .noneModified
  | .absentModified => .absentModified
  | .unknown => .unknown

end Template

/-- Who holds a piece of storage. -/
inductive Storage where
  /-- One holder alone. -/
  | owned
  /-- The template of a run, and whoever has taken it over. -/
  | template (run : Nat) (template : Template)
  /-- Every holder that carries the same number. -/
  | shared (id : Nat)
deriving DecidableEq, Repr, Inhabited

/-- An abstract object in the heap. -/
structure HeapObject where
  shape : Shape
  /-- Whether the object may still be changed. -/
  writable : Bool
  /-- The storage of the property map. -/
  storage : Storage
deriving DecidableEq, Inhabited

namespace HeapObject

/-- A new object of a shape. -/
def ofShape (shape : Shape) : HeapObject :=
  ⟨shape, true, .owned⟩

/-- The frozen template object of a run. -/
def ofTemplate (run : Nat) (template : Template) : HeapObject :=
  ⟨template.shape, false, .template run template⟩

/-- A new object that shares the property map. -/
def copy (o : HeapObject) : HeapObject :=
  { o with writable := true }

/-- A new object with a property map of its own. -/
def deepCopy (o : HeapObject) : HeapObject :=
  { o with writable := true, storage := .owned }

/-- The object can no longer be changed, and may be shared. -/
def freeze (o : HeapObject) : HeapObject :=
  { o with writable := false }

/-- Whether no other object shares the property map. -/
def isUnshared (o : HeapObject) : Bool :=
  o.storage = .owned

/-- Change the shape, but not its property map. -/
def changeSlots (o : HeapObject) (f : Shape → Shape) : Except Error HeapObject :=
  if o.writable then .ok { o with shape := f o.shape } else .error (.invariant .frozenObject)

/-- Change the shape together with its property map, which then is the object's own. -/
def changeProperties (o : HeapObject) (f : Shape → Shape) : Except Error HeapObject :=
  if o.writable then .ok { o with shape := f o.shape, storage := .owned }
  else .error (.invariant .frozenObject)

/-- Write a property. -/
def setProperty (o : HeapObject) (key : Key) (v : Value) : Except Error HeapObject :=
  o.changeProperties fun s => s.set key v

/-- Put other properties in the place of all that are listed. -/
def setProperties (o : HeapObject) (properties : FinMap Key Value) : Except Error HeapObject :=
  o.changeProperties fun s => { s with properties }

/-- Whether a value may stand as a default: properties that are not listed may not be certainly
    present. -/
def legalDefault (v : Value) : Bool :=
  v.isUnknown || !v.maybePresent || v.maybeAbsent

/-- Write one of the two defaults, which has to be legal. -/
def setDefault (o : HeapObject) (numeric : Bool) (v : Value) : Except Error HeapObject :=
  if !o.writable then .error (.invariant .frozenObject)
  else if !legalDefault v then .error (.invariant (.illegalDefault numeric v))
  else o.changeSlots fun s =>
    if numeric then { s with defaultNumeric := v } else { s with defaultOther := v }

/-- Write the default of array indices. -/
def setDefaultNumeric (o : HeapObject) (v : Value) : Except Error HeapObject :=
  o.setDefault true v

/-- Write the default of all other keys. -/
def setDefaultOther (o : HeapObject) (v : Value) : Except Error HeapObject :=
  o.setDefault false v

/-- Write the internal value. -/
def setInternalValue (o : HeapObject) (v : Value) : Except Error HeapObject :=
  o.changeSlots fun s => { s with internalValue := v }

/-- Write the internal prototype. -/
def setInternalPrototype (o : HeapObject) (v : Value) : Except Error HeapObject :=
  o.changeSlots fun s => { s with internalPrototype := v }

/-- Write a slot. -/
def setSlot (o : HeapObject) (slot : Slot) (v : Value) : Except Error HeapObject :=
  match slot with
  | .property key => o.setProperty key v
  | .defaultNumeric => o.setDefaultNumeric v
  | .defaultOther => o.setDefaultOther v
  | .internalValue => o.setInternalValue v
  | .internalPrototype => o.setInternalPrototype v

/-- The scope, unless it is unknown. -/
def scopeChain (o : HeapObject) : Except Error ScopeChain :=
  match o.shape.scope with
  | .unknown => .error (.invariant .readUnknownScope)
  | .known chain => .ok chain

/-- Write the scope. -/
def setScope (o : HeapObject) (scope : Scope) : Except Error HeapObject :=
  o.changeSlots fun s => { s with scope }

/-- Join a chain into the scope. The result says whether the scope changed. -/
def extendScope (o : HeapObject) (chain : ScopeChain) : Except Error (Bool × HeapObject) :=
  if !o.writable then .error (.invariant .frozenObject)
  else
    match o.shape.scope with
    | .unknown => .error (.invariant .extendUnknownScope)
    | .known old =>
      let joined := old.join chain
      .ok (joined ≠ old, { o with shape := { o.shape with scope := .known joined } })

/-- No slot has been modified. -/
def clearModified (o : HeapObject) : Except Error HeapObject :=
  o.changeProperties Shape.clearModified

/-- Put the slots of the caller's object in the place of those that a callee has not modified. -/
def restore (o caller : HeapObject) (nodes : FinSet Nat) : Except Error HeapObject :=
  o.changeProperties fun s => s.restore caller.shape nodes

/-- Put one label in the place of another. -/
def replaceLabel (o : HeapObject) (old new : Label) : Except Error HeapObject :=
  o.changeProperties fun s => s.replaceLabel old new

/-- List the properties of some names, with what they read as. -/
def materialize (o : HeapObject) (names : List String) : Except Error HeapObject :=
  o.changeProperties fun s => s.materialize (names.map .name)

/-- A new object with every label relabeled. -/
def relabel (o : HeapObject) (r : Relabeling) : HeapObject :=
  ofShape (o.shape.relabel r)

/-- A new object that is the join of two. -/
def join (a b : HeapObject) : HeapObject :=
  ofShape (a.shape.join b.shape)

/-- Whether two objects have equal hashes: their shapes agree up to the numbers of tokens. -/
def sameHash (a b : HeapObject) : Bool :=
  a.shape.anonymous = b.shape.anonymous

end HeapObject

end ScriptHeap
