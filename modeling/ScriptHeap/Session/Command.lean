import ScriptHeap.Localization
import ScriptHeap.Session.Sharing

/-!
# Commands of a session

A command changes one named object or state, or stores a new one under a name. A command that fails
leaves the session as it was.
-/

namespace ScriptHeap

/-- A change of an object. -/
inductive ObjectChange where
  | freeze
  | setProperty (key : Key) (v : Value)
  | setProperties (properties : FinMap Key Value)
  | setSlot (slot : Slot) (v : Value)
  | setScope (scope : Scope)
  | extendScope (chain : ScopeChain)
  | clearModified
  | replaceLabel (old new : Label)
  | materialize (names : List String)

/-- A change of a state. -/
inductive StateChange where
  | enterFunction (f : Function) (arguments : List Value)
  | writeRegister (r : Register) (v : Value)
  | addMustDef (r : Register) (node : Nat)
  | addMustEquals (r : Register) (label : Label) (key : Key)
  /-- Make an object the state's own without changing it. -/
  | touch (label : Label)
  /-- Make an object the state's own, and change it. -/
  | changeObject (label : Label) (change : ObjectChange)
  | writeProperty (labels : LabelSet) (key : Key) (v : Value)
  | weakWriteProperty (labels : LabelSet) (key : Key) (v : Value)
  | writeAnyProperty (labels : LabelSet) (v : Value)
  | writeVariable (f : Function) (name : String) (v : Value)
  | freezeHeap

/-- A command of a session. -/
inductive Command where
  | newObject (name : String) (template : Template)
  | copyObject (source name : String)
  | deepCopyObject (source name : String)
  | relabelObject (source : String) (r : Relabeling) (name : String)
  | joinObjects (a b name : String)
  | dropObject (name : String)
  | changeObject (name : String) (change : ObjectChange)
  /-- Take over from a caller's object what has not been modified. -/
  | restoreObject (name caller : String) (nodes : FinSet Nat)
  /-- Take over from a template what is unknown. -/
  | localizeObject (name template : String) (label : Label)
  | newState (name : String) (function : Nat) (context : CallString) (copyOnWriteDisabled : Bool)
  | cloneState (source name : String)
  | changeState (name : String) (change : StateChange)
  /-- Store a copy of a named object, which shares its property map, in the heap of a state. -/
  | storeCopy (name : String) (label : Label) (source : String) (frozen : Bool)
  /-- Store a full copy of a named object in the heap of a state. -/
  | storeObject (name : String) (label : Label) (source : String) (frozen : Bool)
  | joinStates (name other : String)
  /-- Start a new run. -/
  | reset

/-- What a command answers. -/
inductive Answer where
  | done
  | truth (b : Bool)
  | labels (labels : LabelSet)
  /-- The object could be had for a change, but refused it. -/
  | refused (e : Error)

namespace ObjectChange

/-- Apply a change to an object. -/
def apply (o : HeapObject) : ObjectChange → Except Error (Answer × HeapObject)
  | .freeze => .ok (.done, o.freeze)
  | .setProperty key v => (o.setProperty key v).map (.done, ·)
  | .setProperties properties => (o.setProperties properties).map (.done, ·)
  | .setSlot slot v => (o.setSlot slot v).map (.done, ·)
  | .setScope scope => (o.setScope scope).map (.done, ·)
  | .extendScope chain => (o.extendScope chain).map fun r => (.truth r.1, r.2)
  | .clearModified => o.clearModified.map (.done, ·)
  | .replaceLabel old new => (o.replaceLabel old new).map (.done, ·)
  | .materialize names => (o.materialize names).map (.done, ·)

/-- Try a change on an object. One that is refused leaves the object as it is. -/
def attempt (change : ObjectChange) (o : HeapObject) : Answer × HeapObject :=
  match change.apply o with
  | .ok changed => changed
  | .error e => (.refused e, o)

end ObjectChange

/-- Let the object of a label be changed, after making it the state's own. It stays the state's own
    if it refuses the change. -/
def State.editObject (s : State) (label : Label) (change : HeapObject → Answer × HeapObject) :
    Except Error (Answer × State) :=
  match s.heap.get? label with
  | none => .error (.analysis (.noHeapObject label))
  | some cell =>
    let (answer, object) := change (cell.ready s.copyOnWriteDisabled)
    .ok (answer, { s with heap := s.heap.insert label ⟨object, .owned⟩ })

namespace StateChange

/-- Apply a change to a state. -/
def apply (t : Interner) (s : State) :
    StateChange → Except Error (Answer × State) × Interner
  | .enterFunction f arguments =>
    let (s, t) := s.enterFunction t f arguments
    (.ok (.done, s), t)
  | .writeRegister r v => (.ok (.done, s.writeRegister r v), t)
  | .addMustDef r node => (.ok (.done, s.addMustDef r node), t)
  | .addMustEquals r label key => (.ok (.done, s.addMustEquals r label key), t)
  | .touch label =>
    let touched := s.modifyObject label .ok
    (touched.map fun s => (.truth (((s.object? label).map HeapObject.isUnshared).getD false), s), t)
  | .changeObject label change => (s.editObject label change.attempt, t)
  | .writeProperty labels key v => ((s.writeProperty labels key v).map (.done, ·), t)
  | .weakWriteProperty labels key v => ((s.weakWriteProperty labels key v).map (.done, ·), t)
  | .writeAnyProperty labels v => ((s.writeAnyProperty labels v).map (.done, ·), t)
  | .writeVariable f name v =>
    let (written, t) := s.writeVariable t f name v
    (written.map fun r => (.labels r.1, r.2), t)
  | .freezeHeap => (.ok (.done, s.freezeHeap), t)

end StateChange

namespace Session

/-- Store the result of a change of an object. -/
def changeObject (session : Session) (name : String)
    (change : HeapObject → Except Error (Answer × HeapObject)) :
    Except Error (Answer × Session) := do
  let (answer, o) ← change (← session.object name)
  return (answer, session.setObject name o)

/-- Run a command. -/
def run (session : Session) : Command → Except Error (Answer × Session)
  | .newObject name template =>
    .ok (.done, session.setObject name (.ofShape template.shape))
  | .copyObject source name => do
    let (o, session) ← session.sharedObject source
    return (.done, session.setObject name o.copy)
  | .deepCopyObject source name => do
    return (.done, session.setObject name (← session.object source).deepCopy)
  | .relabelObject source r name => do
    return (.done, session.setObject name ((← session.object source).relabel r))
  | .joinObjects a b name => do
    return (.done, session.setObject name ((← session.object a).join (← session.object b)))
  | .dropObject name =>
    .ok (.truth (session.objects.contains name),
      { session with objects := session.objects.erase name }.settle)
  | .changeObject name change => session.changeObject name change.apply
  | .restoreObject name caller nodes => do
    let caller ← session.object caller
    session.changeObject name fun o => (o.restore caller nodes).map (.done, ·)
  | .localizeObject name template label => do
    let template ← session.object template
    session.changeObject name fun o =>
      let (result, o) := (HeapObject.localize Resolver.inFunction template label).run.run o
      result.map fun _ => (.done, o)
  | .newState name function context copyOnWriteDisabled =>
    let (s, interner) := State.initial session.interner function context copyOnWriteDisabled
    .ok (.done, { session with interner }.setState name s)
  | .cloneState source name => do
    let (s, session) ← session.sharedState source
    return (.done, session.setState name s)
  | .changeState name change => do
    let (changed, interner) := change.apply session.interner (← session.state name)
    let (answer, s) ← changed
    return (answer, { session with interner }.setState name s)
  | .storeCopy name label source frozen => do
    let (o, session) ← session.sharedObject source
    let s := (← session.state name).newObject label (if frozen then o.copy.freeze else o.copy)
    return (.done, session.setState name s)
  | .storeObject name label source frozen => do
    let o := (← session.object source).deepCopy
    let s := (← session.state name).newObject label (if frozen then o.freeze else o)
    return (.done, session.setState name s)
  | .joinStates name other => do
    let (other, session) ← session.sharedState other
    let (changed, s) := (← session.state name).join other
    return (.truth changed, session.setState name s)
  | .reset => .ok (.done, { session with interner := session.interner.reset }.settle)

end Session

end ScriptHeap
