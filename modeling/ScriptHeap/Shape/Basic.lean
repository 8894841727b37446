import ScriptHeap.Place
import ScriptHeap.ScopeChain
import ScriptHeap.Value.Basic

/-!
# Shapes of abstract objects

A shape describes every slot of the objects that one label stands for. Properties that are not
listed are described by two defaults: one for array indices, one for all other keys. Every
operation acts slot by slot; reading a key falls through to its default.
-/

namespace ScriptHeap

/-- What is known of the scope of an object. -/
inductive Scope where
  | unknown
  | known (chain : ScopeChain)
deriving DecidableEq

namespace Scope

instance : Inhabited Scope := ⟨.known .empty⟩

/-- Whether the scope is not summarised here. -/
def isUnknown : Scope → Bool
  | .unknown => true
  | .known _ => false

/-- The chain of a scope. An unknown scope counts as none. -/
def chain : Scope → ScopeChain
  | .unknown => .empty
  | .known chain => chain

/-- The join of two scopes. An unknown scope absorbs the other. -/
def join : Scope → Scope → Scope
  | .known a, .known b => .known (a.join b)
  | _, _ => .unknown

/-- Apply a function to a known chain. -/
def map (f : ScopeChain → ScopeChain) : Scope → Scope
  | .unknown => .unknown
  | .known chain => .known (f chain)

end Scope

/-- The slots of an abstract object. -/
structure Shape where
  /-- The properties that are listed. -/
  properties : FinMap Key Value
  /-- What array indices read as that are not listed. -/
  defaultNumeric : Value
  /-- What all other keys read as that are not listed. -/
  defaultOther : Value
  internalPrototype : Value
  internalValue : Value
  scope : Scope
deriving DecidableEq

namespace Shape

/-! ### Templates -/

/-- The shape with one value in every slot. -/
def uniform (v : Value) (scope : Scope) : Shape :=
  ⟨∅, v, v, v, v, scope⟩

/-- Every slot is bottom, and there is no scope. -/
def none : Shape := uniform .none (.known .empty)

instance : Inhabited Shape := ⟨none⟩

/-- Every slot is bottom but may have been modified. -/
def noneModified : Shape := uniform .noneModified (.known .empty)

/-- Every slot is absent but may have been modified. -/
def absentModified : Shape := uniform .absentModified (.known .empty)

/-- Every slot, and the scope, is unknown. -/
def unknown : Shape := uniform .unknown .unknown

/-! ### Reading -/

/-- The four slots that every object has. -/
def fixedSlots (s : Shape) : List Value :=
  [s.defaultNumeric, s.defaultOther, s.internalPrototype, s.internalValue]

/-- All values: those of the listed properties, and the four fixed slots. -/
def values (s : Shape) : List Value :=
  s.properties.values ++ s.fixedSlots

/-- What a key reads as when it is not listed. -/
def default (s : Shape) (key : Key) : Value :=
  if key.isNumeric then s.defaultNumeric else s.defaultOther

/-- What a key reads as. -/
def get (s : Shape) (key : Key) : Value :=
  (s.properties.get? key).getD (s.default key)

/-- What a slot holds. -/
def getSlot (s : Shape) : Slot → Value
  | .property key => s.get key
  | .defaultNumeric => s.defaultNumeric
  | .defaultOther => s.defaultOther
  | .internalValue => s.internalValue
  | .internalPrototype => s.internalPrototype

/-- Whether nothing is summarised here. -/
def isUnknown (s : Shape) : Bool :=
  s.values.all Value.isUnknown && s.scope.isUnknown

/-- Whether every slot is bottom and there is no scope. -/
def isAllNone (s : Shape) : Bool :=
  s.values.all Value.isNone && s.scope = .known .empty

/-- Whether some slot is bottom. The scope does not count. -/
def isSomeNone (s : Shape) : Bool :=
  s.values.any Value.isNone

/-- Whether some slot may have been modified. -/
def isSomeModified (s : Shape) : Bool :=
  s.values.any Value.maybeModified

/-- Every label in the values and the scope. The symbols among the keys do not count. -/
def labels (s : Shape) : LabelSet :=
  s.values.foldl (fun labels v => labels ∪ v.allLabels) ∅ ∪ s.scope.chain.labels

/-- Whether a label occurs, as a symbol, in a value or in the scope. -/
def containsLabel (s : Shape) (label : Label) : Bool :=
  s.values.any (Value.containsLabel label) || s.properties.keys.any (Key.containsLabel label)
    || s.scope.chain.containsLabel label

/-! ### Writing -/

/-- Write a property. -/
def set (s : Shape) (key : Key) (v : Value) : Shape :=
  { s with properties := s.properties.insert key v }

/-- Write a slot. -/
def setSlot (s : Shape) (slot : Slot) (v : Value) : Shape :=
  match slot with
  | .property key => s.set key v
  | .defaultNumeric => { s with defaultNumeric := v }
  | .defaultOther => { s with defaultOther := v }
  | .internalValue => { s with internalValue := v }
  | .internalPrototype => { s with internalPrototype := v }

/-- Apply a function to every value. -/
def mapValues (s : Shape) (f : Value → Value) : Shape where
  properties := s.properties.mapValues f
  defaultNumeric := f s.defaultNumeric
  defaultOther := f s.defaultOther
  internalPrototype := f s.internalPrototype
  internalValue := f s.internalValue
  scope := s.scope

/-- No slot has been modified. -/
def clearModified (s : Shape) : Shape :=
  s.mapValues Value.notModified

/-- List keys, with what they read as. -/
def materialize (s : Shape) (keys : List Key) : Shape :=
  keys.foldl (fun acc key => acc.set key (s.get key)) s

/-! ### Labels -/

/-- The properties under relabeled keys. Where two keys become one, their values are joined. -/
def relabelProperties (r : Relabeling) (properties : FinMap Key Value) : FinMap Key Value :=
  properties.toList.foldl
    (fun acc entry =>
      let v := entry.2.relabel r
      (entry.1.relabel r).toList.foldl
        (fun acc key => acc.insert key (((acc.get? key).map v.join).getD v)) acc)
    ∅

/-- Relabel every key, every value and the scope. -/
def relabel (s : Shape) (r : Relabeling) : Shape where
  properties := relabelProperties r s.properties
  defaultNumeric := s.defaultNumeric.relabel r
  defaultOther := s.defaultOther.relabel r
  internalPrototype := s.internalPrototype.relabel r
  internalValue := s.internalValue.relabel r
  scope := s.scope.map (·.relabel r)

/-- Put one label in the place of another. Where two keys become one, the value of the later key
    stays. Unknown values are left alone. -/
def replaceLabel (s : Shape) (old new : Label) : Shape where
  properties := .ofList (s.properties.toList.map fun entry =>
    (entry.1.replaceLabel old new, entry.2.replaceLabel old new))
  defaultNumeric := s.defaultNumeric.replaceLabel old new
  defaultOther := s.defaultOther.replaceLabel old new
  internalPrototype := s.internalPrototype.replaceLabel old new
  internalValue := s.internalValue.replaceLabel old new
  scope := s.scope.map (·.replaceLabel old new)

/-- Forget the numbers of all tokens. -/
def anonymous (s : Shape) : Shape :=
  s.mapValues Value.anonymous

/-! ### Join -/

/-- The keys that are listed in either shape, in order. -/
def commonKeys (a b : Shape) : List Key :=
  (FinSet.ofList (a.properties.keys ++ b.properties.keys)).toList

/-- The slot-by-slot join of two shapes. -/
def join (a b : Shape) : Shape where
  properties := .ofList ((commonKeys a b).map fun key => (key, (a.get key).join (b.get key)))
  defaultNumeric := a.defaultNumeric.join b.defaultNumeric
  defaultOther := a.defaultOther.join b.defaultOther
  internalPrototype := a.internalPrototype.join b.internalPrototype
  internalValue := a.internalValue.join b.internalValue
  scope := a.scope.join b.scope

/-! ### Restoration -/

/-- What a slot holds after a return: its own value where it may have been modified, and the
    caller's value otherwise, without the parts split off at the callee's nodes. -/
def restored (nodes : FinSet Nat) (own callers : Value) : Value :=
  if own.maybeModified then own else callers.removeParts nodes

/-- The listed properties after a return: those of the callee, and those of the caller that the
    callee's default says nothing newer about. -/
def restoredProperties (s caller : Shape) (nodes : FinSet Nat) : FinMap Key Value :=
  let own : FinMap Key Value :=
    .ofList (s.properties.toList.map fun entry =>
      (entry.1, restored nodes entry.2 (caller.get entry.1)))
  caller.properties.toList.foldl
    (fun acc entry =>
      if (s.default entry.1).maybeModified || acc.contains entry.1 then acc
      else acc.insert entry.1 (entry.2.removeParts nodes))
    own

/-- Put the caller's slots in the place of the slots that a callee has not modified. Properties that
    equal their default afterwards are no longer listed. When some slot is bottom then, all are. -/
def restore (s caller : Shape) (nodes : FinSet Nat) : Shape :=
  let whole : Shape := {
    properties := restoredProperties s caller nodes
    defaultNumeric := restored nodes s.defaultNumeric caller.defaultNumeric
    defaultOther := restored nodes s.defaultOther caller.defaultOther
    internalPrototype := restored nodes s.internalPrototype caller.internalPrototype
    internalValue := restored nodes s.internalValue caller.internalValue
    scope := if s.scope.isUnknown then caller.scope else s.scope }
  let trimmed := { whole with
    properties := whole.properties.filter fun key v => v ≠ whole.default key }
  if trimmed.isSomeNone then none else trimmed

end Shape

end ScriptHeap
