/-!
# JSON values

A JSON value keeps its number literals as they were written, and the fields of an object in their
order, repeated names included, because whether a name is repeated and whether a literal has a
fraction decide how a value may be read. A field name also keeps whether it was written with an
escape, because a name that stands for a number must be written in plain digits.
-/

namespace ScriptHeap

/-- The name of a field. -/
structure Json.FieldName where
  /-- The name itself. There is none when one of its escapes names half of a surrogate pair. -/
  text : Option String
  /-- Whether the name was written with an escape. -/
  escaped : Bool := false
deriving DecidableEq, Repr, Inhabited

/-- A JSON value. A string literal has no text when one of its escapes names half of a surrogate
    pair: such a literal can be skipped over, but not read. -/
inductive Json where
  | null
  | bool (b : Bool)
  | number (literal : String)
  | string (text : Option String)
  | array (items : List Json)
  | object (fields : List (Json.FieldName × Json))
deriving Inhabited

namespace Json

/-- The name, if it was written as it is. -/
def FieldName.plain? (name : FieldName) : Option String :=
  if name.escaped then none else name.text

/-- A string value. -/
def text (s : String) : Json :=
  .string (some s)

/-- A natural number. -/
def nat (n : Nat) : Json :=
  .number (String.ofList (Nat.toDigits 10 n))

/-- An object with the given fields. -/
def record (fields : List (String × Json)) : Json :=
  .object (fields.map fun field => (⟨some field.1, false⟩, field.2))

/-- A value that may be missing: `null` then. -/
def option {α : Type} (write : α → Json) : Option α → Json
  | none => .null
  | some a => write a

/-- An enumeration case with a payload: an object with the case's name as its only field. -/
def tagged (name : String) (payload : Json) : Json :=
  .record [(name, payload)]

end Json

end ScriptHeap
