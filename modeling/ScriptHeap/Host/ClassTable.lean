import ScriptHeap.Host.Basic

/-!
# Hosts given by a table of classes

A class table answers from descriptions of classes. It remembers every question in order, before it
looks for the answer, so that a question without an answer is remembered too.
-/

namespace ScriptHeap

/-- A class of the host. -/
structure HostClass where
  name : String
  fields : FinMap String Value := ∅
  /-- The results of the methods. A method without a result has an absent one. -/
  methods : FinMap String Value := ∅
  statics : FinMap String Value := ∅
  /-- Whether the class has instances. -/
  constructible : Bool := true

/-- A question that a class table was asked. -/
inductive Query where
  | propertyValue (className property : String)
  | functionValue (className function : String)
  | call (className method : String) (arguments : List Value)
  | setProperty (className property : String) (v : Value)
  | construct (site : Nat) (className : String)
deriving DecidableEq

/-- Descriptions of classes, and what was asked about them. -/
structure ClassTable where
  classes : FinMap String HostClass
  queries : List Query
  resumed : List String

namespace ClassTable

/-- The table without classes. -/
def empty : ClassTable := ⟨∅, [], []⟩

instance : Inhabited ClassTable := ⟨empty⟩

/-- Add a class, in the place of one of the same name. -/
def addClass (table : ClassTable) (c : HostClass) : ClassTable :=
  { table with classes := table.classes.insert c.name c }

/-- Remember a question. -/
def record (query : Query) : HostCall ClassTable Unit :=
  modify fun table => { table with queries := table.queries ++ [query] }

/-- The class of a name. -/
def findClass (name : String) : HostCall ClassTable HostClass := do
  match (← get).classes.get? name with
  | some c => return c
  | none => throw (.ofHost (.unknownClass name))

/-- A member of a class. The sort of the member is for the error that says it is missing. -/
def findMember (members : FinMap String Value) (className sort name : String) :
    HostCall ClassTable Value :=
  match members.get? name with
  | some v => return v
  | none => throw (.ofHost (.noMember className sort name))

/-- The classes of a receiver, in the order of its labels. -/
def receiverClasses (receiver : Value) : HostCall ClassTable (List String) :=
  match (receiver.hostParts.filter fun part => !part.isRoot).filterMap Value.HostPart.className with
  | [] => throw (.ofHost (.notForeign receiver))
  | classes => return classes

/-- The values that a field of a class may hold. -/
def propertyValue (className property : String) : HostCall ClassTable Value := do
  record (.propertyValue className property)
  let c ← findClass className
  findMember c.fields className "field" property

/-- The value of a static method of a class. -/
def functionValue (className function : String) : HostCall ClassTable Value := do
  record (.functionValue className function)
  let c ← findClass className
  findMember c.statics className "static method" function

/-- The result of a method of a class. -/
def callOne (method : String) (arguments : List Value) (className : String) :
    HostCall ClassTable Value := do
  record (.call className method arguments)
  let c ← findClass className
  findMember c.methods className "method" method

/-- The results of a method, for every class of the receiver. -/
def call (receiver : Value) (method : String) (arguments : List Value) :
    HostCall ClassTable Value := do
  (← receiverClasses receiver).foldlM
    (fun v className => return v.join (← callOne method arguments className)) .none

/-- Write a field of a class. It may hold its old value as well afterwards. -/
def setField (property : String) (v : Value) (className : String) : HostCall ClassTable Unit := do
  record (.setProperty className property v)
  let c ← findClass className
  let old ← findMember c.fields className "field" property
  let c := { c with fields := c.fields.insert property (old.join v) }
  modify fun table => { table with classes := table.classes.insert className c }

/-- Write a field of every class of the receiver. -/
def setProperty (receiver : Value) (property : String) (v : Value) : HostCall ClassTable Unit := do
  (← receiverClasses receiver).forM (setField property v)

/-- A new instance of a class. -/
def construct (site : Nat) (className : String) : HostCall ClassTable Value := do
  record (.construct site className)
  let c ← findClass className
  if c.constructible then return .object ⟨site, .foreignObject, some className⟩
  else throw (.ofHost (.notConstructible className))

/-- Remember a piece of code to go on with. -/
def resume (code : String) : HostCall ClassTable Unit :=
  modify fun table => { table with resumed := table.resumed ++ [code] }

/-- Class tables as a host. -/
def host : Host ClassTable where
  propertyValue := propertyValue
  functionValue := functionValue
  call := call
  setProperty := setProperty
  construct := construct
  resume := resume

end ClassTable

end ScriptHeap
