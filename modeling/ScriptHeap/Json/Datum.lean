import ScriptHeap.Datum
import ScriptHeap.Decimal.Layout
import ScriptHeap.Json.Reader
import ScriptHeap.Json.Shape
import ScriptHeap.Json.Writer

/-!
# Data as JSON

JSON as a format. Lists and tuples are arrays, structures and maps are objects, something that is
missing is `null`, and a case of an enumeration is its name, or an object with its name over what it
carries. The entries of a map stand under names, which are texts, so the keys of a map have to be
texts or words.
-/

namespace ScriptHeap

/-- An object with the given fields. Their names know whether they are written with an escape. -/
def Json.named (fields : List (String × Json)) : Json :=
  .object (fields.map fun field => (⟨some field.1, hasEscape field.1⟩, field.2))

namespace Datum

/-- The name under which the entry of a key stands in a map. -/
def keyName? : Datum → Option String
  | .text s => some s
  | .word n => some (toString n)
  | _ => none

mutual

/-- Data as a JSON value. There is none if a map in it has a key without a name. -/
def toJson? : Datum → Option Json
  | .bool b => some (.bool b)
  | .word n => some (.nat n)
  | .number x => some (.number (Decimal.Layout.data.text x))
  | .text s => some (.text s)
  | .absent => some .null
  | .present d => toJson? d
  | .list items => (itemsToJson? items).map .array
  | .tuple items => (itemsToJson? items).map .array
  | .map entries => (entriesToJson? entries).map .named
  | .record fields => (fieldsToJson? fields).map .named
  | .case name => some (.text name)
  | .tagged name payload => (toJson? payload).map fun j => .named [(name, j)]

def itemsToJson? : List Datum → Option (List Json)
  | [] => some []
  | d :: rest => do return (← toJson? d) :: (← itemsToJson? rest)

def entriesToJson? : List (Datum × Datum) → Option (List (String × Json))
  | [] => some []
  | (key, d) :: rest => do return (← keyName? key, ← toJson? d) :: (← entriesToJson? rest)

def fieldsToJson? : List (String × Datum) → Option (List (String × Json))
  | [] => some []
  | (name, d) :: rest => do return (name, ← toJson? d) :: (← fieldsToJson? rest)

end

end Datum

namespace Json

/-- The key of a map that stands under a name. A word has to be written in plain digits. -/
def key? : Schema → FieldName → Option Datum
  | .text, name => name.text.map .text
  | .word, name => do
    let digits ← name.plain?
    return .word (← (← Numeral.ofChars? digits.toList).toWord?)
  | _, _ => none

mutual

/-- The data of a schema in a JSON value. -/
def datum? : Schema → Json → Option Datum
  | .bool, j => j.bool?.map .bool
  | .word, j => j.word?.map .word
  | .number, j => j.float?.map .number
  | .text, j => j.text?.map .text
  | .option s, j => if j.isNull then some .absent else (datum? s j).map .present
  | .list s, j => (j.array?.bind fun items => items.mapM (datum? s)).map .list
  | .tuple schemas, j => (j.array?.bind fun items => components? schemas items).map .tuple
  | .map key value, j =>
    (j.object?.bind fun fields => fields.mapM fun field => do
      return (← key? key field.1, ← datum? value field.2)).map .map
  | .record schemas, j =>
    ((j.fields? (schemas.map Prod.fst)).bind fun values => fieldData? schemas values).map .record
  | .cases bare tagged, j => do
    let (name, payload) ← j.variant?
    if bare.contains name then
      -- A case that carries nothing may be written over `null`.
      if payload.all isNull then return .case name else none
    else return .tagged name (← payload? tagged name (← payload))

def components? : List Schema → List Json → Option (List Datum)
  | [], [] => some []
  | s :: schemas, j :: rest => do return (← datum? s j) :: (← components? schemas rest)
  | _, _ => none

def fieldData? : List (String × Schema) → List (Option Json) → Option (List (String × Datum))
  | [], [] => some []
  | (name, s) :: schemas, some j :: rest => do
    return (name, ← datum? s j) :: (← fieldData? schemas rest)
  | (name, s) :: schemas, none :: rest => do
    return (name, ← s.missing?) :: (← fieldData? schemas rest)
  | _, _ => none

def payload? : List (String × Schema) → String → Json → Option Datum
  | [], _, _ => none
  | (other, s) :: tagged, name, j => if other = name then datum? s j else payload? tagged name j

end

/-- JSON text without blanks. -/
def format : Format where
  write? d := d.toJson?.map compact
  read? schema text := (parse? text).bind (datum? schema)

end Json

end ScriptHeap
