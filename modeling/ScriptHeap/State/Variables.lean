import ScriptHeap.Program.Block
import ScriptHeap.State.Basic

/-!
# Variables

The parameters and declared variables of a function are properties of its activation object; all
other variables are properties of the global object. A function that is called has an `arguments`
object as well, whose array indices hold the arguments.
-/

namespace ScriptHeap

/-- The label of the activation object of a function. -/
def Label.activation (function : Nat) : Label :=
  ⟨function, .activation, none⟩

/-- The label of the `arguments` object of a function. -/
def Label.arguments (function : Nat) : Label :=
  ⟨function, .arguments, none⟩

namespace State

/-- The activation object of a call: parameters hold the arguments, or `undefined` without one;
    declared variables hold `undefined`. -/
def activationShape (f : Function) (arguments : List Value) : Shape :=
  let parameters := f.parameters.zipIdx.map fun (name, i) =>
    (Key.name name, (arguments.getD i .undefined).joinModified)
  let locals := f.locals.map fun name => (Key.name name, Value.undefined.joinModified)
  (parameters ++ locals).foldl (fun shape entry => shape.set entry.1 entry.2) .absentModified

/-- The `arguments` object of a call: an index for each parameter. -/
def argumentsShape (f : Function) (arguments : List Value) : Shape :=
  (List.range f.parameters.length).foldl
    (fun shape i => shape.set (.name (toString i)) (arguments.getD i .undefined).joinModified)
    .absentModified

/-- Give a function that is called its activation and `arguments` objects. A program body has
    none. -/
def enterFunction (s : State) (t : Interner) (f : Function) (arguments : List Value) :
    State × Interner :=
  if f.isMain then (s, t)
  else
    let s := s.newObject (.activation f.index) (.ofShape (activationShape f arguments))
    let s := s.newObject (.arguments f.index) (.ofShape (argumentsShape f arguments))
    (s, (t.addLabel (.activation f.index)).addLabel (.arguments f.index))

/-- The object that holds a variable, as it is seen from a function. -/
def variableObject (t : Interner) (f : Function) (name : String) : Label × Interner :=
  if !f.isMain && f.declares name then (.activation f.index, t.addLabel (.activation f.index))
  else (.global, t)

/-- What a slot reads as: a slot that may be absent also reads as `undefined`. -/
def readAs (v : Value) : Value :=
  let present := v.notAbsent.notModified.withoutAttributes
  if v.maybeAbsent then present.join .undefined else present

/-- Read a variable. -/
def readVariable (s : State) (t : Interner) (f : Function) (name : String) : Value × Interner :=
  let (label, t) := variableObject t f name
  let v := ((s.object? label).map fun o => o.shape.get (.name name)).getD .absent
  (readAs v, t)

/-- Write a variable. The result has the labels of the objects that were written. -/
def writeVariable (s : State) (t : Interner) (f : Function) (name : String) (v : Value) :
    Except Error (LabelSet × State) × Interner :=
  let (label, t) := variableObject t f name
  let labels : LabelSet := FinSet.singleton label
  ((s.writeProperty labels (.name name) v).map fun s => (labels, s), t)

end State

end ScriptHeap
