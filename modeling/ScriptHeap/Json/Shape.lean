import ScriptHeap.Json.Basic
import ScriptHeap.Json.Numeral

/-!
# The shape of JSON values

A structure is an object, in which names that the structure does not have are passed over and no
name of its own may be repeated, or an array of exactly its fields in order. An enumeration case is
its bare name, or an object whose only field is named for the case. Nothing is read when a part has
the wrong shape.
-/

namespace ScriptHeap.Json

/-- Whether this is `null`. -/
def isNull : Json → Bool
  | .null => true
  | _ => false

/-- A truth value. -/
def bool? : Json → Option Bool
  | .bool b => some b
  | _ => none

/-- A string. -/
def text? : Json → Option String
  | .string s => s
  | _ => none

/-- The parts of a number literal. -/
def numeral? : Json → Option Numeral
  | .number lit => Numeral.ofChars? lit.toList
  | _ => none

/-- A natural number of 64 bits, written without sign, fraction and exponent. -/
def word? (v : Json) : Option Nat :=
  v.numeral?.bind Numeral.toWord?

/-- A floating-point number. -/
def float? (v : Json) : Option Float :=
  v.numeral?.bind Numeral.toFloat?

/-- The items of an array. -/
def array? : Json → Option (List Json)
  | .array items => some items
  | _ => none

/-- The fields of an object. -/
def object? : Json → Option (List (FieldName × Json))
  | .object fields => some fields
  | _ => none

/-- The only value of a field name among the fields of an object: `some none` when the name is
    missing, `none` when it is repeated. -/
def field? (fields : List (FieldName × Json)) (name : String) : Option (Option Json) :=
  match fields.filter fun field => field.1.text == some name with
  | [] => some none
  | [field] => some (some field.2)
  | _ => none

/-- The fields of a structure, as an object or as an array of exactly these fields. -/
def fields? (names : List String) : Json → Option (List (Option Json))
  | .array items => if items.length = names.length then some (items.map some) else none
  | .object fields =>
    if fields.all fun field => field.1.text.isSome then names.mapM (field? fields) else none
  | _ => none

/-- An enumeration case: its name, and its payload if it has one. -/
def variant? : Json → Option (String × Option Json)
  | .string (some name) => some (name, none)
  | .object [(⟨some name, _⟩, payload)] => some (name, some payload)
  | _ => none

/-! ### Loose reading -/

/-- A field of an object, which counts as `null` where it is missing. -/
def member (j : Json) (name : String) : Json :=
  match j with
  | .object fields =>
    ((fields.reverse.find? fun field => field.1.text == some name).map Prod.snd).getD .null
  | _ => .null

/-- A value that may be `null`. -/
def nullable? {α : Type} (read : Json → Option α) : Json → Option (Option α)
  | .null => some none
  | j => (read j).map some

/-- The items of an array. `null` counts as the empty one. -/
def items? : Json → Option (List Json)
  | .array items => some items
  | .null => some []
  | _ => none

/-- The words of an array. -/
def words? (j : Json) : Option (List Nat) := do (← j.items?).mapM word?

/-- The strings of an array. -/
def strings? (j : Json) : Option (List String) := do (← j.items?).mapM text?

end ScriptHeap.Json
