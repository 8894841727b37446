/-!
# Data and formats

A type hands its values to a format as data, and a format hands data back to the type that asks for
it. The data of a type is known by its schema: a text need not tell a record from a map, or a number
that may be missing from a number, so it can be read only by someone who knows which of them to
expect.
-/

namespace ScriptHeap

/-- Data, as a type hands it to a format. -/
inductive Datum where
  | bool (b : Bool)
  | word (n : Nat)
  | number (x : Float)
  | text (s : String)
  /-- Something that may be missing, and is. -/
  | absent
  /-- Something that may be missing, but is there. -/
  | present (d : Datum)
  | list (items : List Datum)
  | tuple (items : List Datum)
  | map (entries : List (Datum × Datum))
  /-- A structure, with its fields in order. -/
  | record (fields : List (String × Datum))
  /-- A case of an enumeration that carries nothing. -/
  | case (name : String)
  /-- A case of an enumeration, with what it carries. -/
  | tagged (name : String) (payload : Datum)
deriving Inhabited

/-- What a type asks a format for. -/
inductive Schema where
  | bool
  | word
  | number
  | text
  | option (s : Schema)
  | list (s : Schema)
  | tuple (items : List Schema)
  | map (key value : Schema)
  | record (fields : List (String × Schema))
  /-- An enumeration: the cases that carry nothing, and those that carry something. -/
  | cases (bare : List String) (tagged : List (String × Schema))
deriving Inhabited

/-- A format: how data is written as text, and how the data of a schema is read from a text. -/
structure Format where
  write? : Datum → Option String
  read? : Schema → String → Option Datum

namespace Schema

/-- Whether this is a schema of something that may be missing. -/
def isOption : Schema → Bool
  | .option _ => true
  | _ => false

/-- What stands for a field that a text does not have. -/
def missing? : Schema → Option Datum
  | .option _ => some .absent
  | _ => none

end Schema

namespace Datum

/-- A truth value. -/
def bool? : Datum → Option Bool
  | .bool b => some b
  | _ => none

/-- A word. -/
def word? : Datum → Option Nat
  | .word n => some n
  | _ => none

/-- A number. -/
def number? : Datum → Option Float
  | .number x => some x
  | _ => none

/-- A text. -/
def text? : Datum → Option String
  | .text s => some s
  | _ => none

/-- Something that may be missing, as data. -/
def ofOption {α : Type} (write : α → Datum) : Option α → Datum
  | none => .absent
  | some a => .present (write a)

/-- Something that may be missing. -/
def option? {α : Type} (read : Datum → Option α) : Datum → Option (Option α)
  | .absent => some none
  | .present d => (read d).map some
  | _ => none

/-- A list as data. -/
def ofList {α : Type} (write : α → Datum) (items : List α) : Datum :=
  .list (items.map write)

/-- A list, with each item read in the same way. -/
def list? {α : Type} (read : Datum → Option α) : Datum → Option (List α)
  | .list items => items.mapM read
  | _ => none

/-- A list of entries as a map. -/
def ofEntries {α β : Type} (writeKey : α → Datum) (write : β → Datum) (entries : List (α × β)) :
    Datum :=
  .map (entries.map fun entry => (writeKey entry.1, write entry.2))

/-- The entries of a map. -/
def entries? {α β : Type} (readKey : Datum → Option α) (read : Datum → Option β) :
    Datum → Option (List (α × β))
  | .map entries => entries.mapM fun entry => do return (← readKey entry.1, ← read entry.2)
  | _ => none

end Datum

end ScriptHeap
