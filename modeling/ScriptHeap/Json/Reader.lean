import ScriptHeap.Json.Basic
import ScriptHeap.Json.Lexeme
import ScriptHeap.Json.Numeral

/-!
# Reading JSON text

The lexemes of a text drive a machine whose stack holds the arrays and objects that are still open.
A text must hold exactly one value.
-/

namespace ScriptHeap.Json

/-- An array or object that is still open, with its parts so far, last first. -/
inductive Frame where
  | array (items : List Json)
  | object (fields : List (FieldName × Json)) (key : FieldName)

/-- What the machine waits for. -/
inductive Awaits where
  /-- A value. -/
  | value
  /-- The first item of an array, or its end. -/
  | firstItem
  /-- The name of a field. -/
  | name (fields : List (FieldName × Json))
  /-- The name of the first field of an object, or its end. -/
  | firstName
  /-- The colon after the name of a field. -/
  | colon (fields : List (FieldName × Json)) (key : FieldName)
  /-- The end of the array or object around a finished value, or the next part of it. -/
  | after (value : Json)

/-- The value of a bare word: one of three names, or a number literal. -/
def ofWord? (chars : List Char) : Option Json :=
  if chars = ['n', 'u', 'l', 'l'] then some .null
  else if chars = ['t', 'r', 'u', 'e'] then some (.bool true)
  else if chars = ['f', 'a', 'l', 's', 'e'] then some (.bool false)
  else (Numeral.ofChars? chars).map fun _ => .number (String.ofList chars)

/-- One step of the machine: the next stack and what it waits for then. -/
def step : List Frame → Awaits → Lexeme → Option (List Frame × Awaits)
  | stack, .value, lexeme => start stack lexeme
  | .array items :: stack, .firstItem, .closeBracket => some (stack, .after (.array items.reverse))
  | stack, .firstItem, lexeme => start stack lexeme
  | stack, .name fields, .text key escaped => some (stack, .colon fields ⟨key, escaped⟩)
  | stack, .firstName, .text key escaped => some (stack, .colon [] ⟨key, escaped⟩)
  | stack, .firstName, .closeBrace => some (stack, .after (.object []))
  | stack, .colon fields key, .colon => some (.object fields key :: stack, .value)
  | .array items :: stack, .after v, .comma => some (.array (v :: items) :: stack, .value)
  | .array items :: stack, .after v, .closeBracket =>
    some (stack, .after (.array (v :: items).reverse))
  | .object fields key :: stack, .after v, .comma => some (stack, .name ((key, v) :: fields))
  | .object fields key :: stack, .after v, .closeBrace =>
    some (stack, .after (.object ((key, v) :: fields).reverse))
  | _, _, _ => none
where
  /-- The first lexeme of a value. -/
  start (stack : List Frame) : Lexeme → Option (List Frame × Awaits)
    | .openBrace => some (stack, .firstName)
    | .openBracket => some (.array [] :: stack, .firstItem)
    | .text s _ => some (stack, .after (.string s))
    | .word chars => (ofWord? chars).map fun v => (stack, .after v)
    | _ => none

/-- Run the machine to the end of the lexemes. -/
def run : List Frame → Awaits → List Lexeme → Option Json
  | [], .after v, [] => some v
  | _, _, [] => none
  | stack, awaits, lexeme :: rest =>
    match step stack awaits lexeme with
    | some (stack, awaits) => run stack awaits rest
    | none => none

/-- The one value that a text holds. -/
def parse? (s : String) : Option Json :=
  (Lexeme.ofString? s).bind (run [] .value)

end ScriptHeap.Json
