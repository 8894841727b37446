import ScriptHeap.Error

/-!
# The host

The analysis does not model the classes of the host language. It asks a host about them, through
the six questions below. A host may remember what it was asked, also where it has no answer.
-/

namespace ScriptHeap

/-- A call to a host with memory `σ`. The memory is kept also where the call fails. -/
abbrev HostCall (σ : Type) := ExceptT Error (StateM σ)

/-- What can be asked of a host. -/
structure Host (σ : Type) where
  /-- The values that a property of a class may hold. -/
  propertyValue : (className property : String) → HostCall σ Value
  /-- The value of a static method of a class. -/
  functionValue : (className function : String) → HostCall σ Value
  /-- The result of calling a method. An absent value says that there is none. -/
  call : (receiver : Value) → (method : String) → (arguments : List Value) → HostCall σ Value
  /-- Write a property. -/
  setProperty : (receiver : Value) → (property : String) → (v : Value) → HostCall σ Unit
  /-- A new instance of a class, made at a node. -/
  construct : (site : Nat) → (className : String) → HostCall σ Value
  /-- Let the host go on with a piece of code. -/
  resume : (code : String) → HostCall σ Unit

end ScriptHeap
