import ScriptHeap.Value.Basic

/-!
# Texts of abstract values

A value is printed as its alternatives with bars between them, then what is known of its slot, then
its parts. An unknown value is a question mark.
-/

namespace ScriptHeap.Value

/-- The texts of a list of conditional entries. -/
def chosen (entries : List (Bool × String)) : List String :=
  (entries.filter Prod.fst).map Prod.snd

/-- The alternatives of a value, without its parts. -/
def alternatives (v : Value) : List String :=
  let f := v.flags
  let truth :=
    if f.isTrue && f.isFalse then ["Bool"]
    else chosen [(f.isTrue, "true"), (f.isFalse, "false")]
  let strings :=
    if f.anyString then ["Str"] else (v.string.map Text.quoted).toList
  let contents :=
    chosen [(f.undefined, "Undef"), (f.null, "Null")] ++ truth ++ chosen [(f.number, "Num")]
      ++ strings ++ chosen [(!v.labels.isEmpty, v.labels.text), (f.absent, "absent")]
  let contents := if contents.isEmpty then ["<none>"] else contents
  let attributes :=
    chosen [(f.dontDelete, "DontDelete"), (f.dontEnum, "DontEnum"), (f.readOnly, "ReadOnly")]
  contents ++ chosen [(f.modified, "modified"),
    (!attributes.isEmpty, "(" ++ ",".intercalate attributes ++ ")")]

mutual

/-- The text of a value. -/
def text : Value → String
  | ⟨flags, string, labels, parts⟩ =>
    if flags.unknown then "?"
    else
      let own := "|".intercalate (alternatives ⟨flags, string, labels, []⟩)
      if parts.isEmpty then own
      else own ++ " partitions[" ++ "; ".intercalate (partTexts parts) ++ "]"

def partTexts : List (Token × Value) → List String
  | [] => []
  | (t, v) :: rest => (t.text ++ ": " ++ text v) :: partTexts rest

end

/-- What a value adds to a smaller one. -/
def additions (v old : Value) : List String :=
  let flags := v.flags.diff old.flags
  let string :=
    match v.string with
    | some s => if v.string = old.string then [] else [Text.quoted s]
    | .none => []
  (if flags.isEmpty then [] else [(ofFlags flags).text]) ++ string
    ++ (v.labels.diff old.labels).toList.map Label.text
    ++ (v.tokens.filter fun t => (old.part? t).isNone).map fun t => "partition " ++ t.text

/-- What a value adds to a smaller one, in a line. -/
def additionsText (v old : Value) : String :=
  "added: " ++ ", ".intercalate (v.additions old)

mutual

/-- A value as data. -/
def toJson : Value → Json
  | ⟨flags, string, labels, parts⟩ =>
    .record [("flags", .record [("bits", .nat flags.bits)]), ("string", .option .text string),
      ("labels", labels.toJson),
      ("partitions", if parts.isEmpty then .null else .record (partsToJson parts))]

def partsToJson : List (Token × Value) → List (String × Json)
  | [] => []
  | (t, v) :: rest => (t.text, toJson v) :: partsToJson rest

end

end ScriptHeap.Value
