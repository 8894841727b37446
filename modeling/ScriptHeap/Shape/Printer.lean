import ScriptHeap.Shape.Basic
import ScriptHeap.Value.Printer

/-!
# Texts of shapes
-/

namespace ScriptHeap.Shape

/-- The four fixed slots with their titles. -/
def titledSlots (s : Shape) : List (String × Value) :=
  [("[[DefaultNumeric]]", s.defaultNumeric), ("[[DefaultOther]]", s.defaultOther),
    ("[[Prototype]]", s.internalPrototype), ("[[Value]]", s.internalValue)]

/-- The text of a shape, as an object literal. Properties that equal their default, and slots that
    hold nothing, are left out. -/
def text (s : Shape) : String :=
  let bottom := if s.defaultNumeric.isNone then ["<none>"] else []
  let properties := (s.properties.toList.filter fun entry => entry.2 ≠ s.default entry.1).map
    fun entry => entry.1.literal ++ ":" ++ entry.2.text
  let slots := (s.titledSlots.filter fun slot => slot.2.maybePresentOrUnknown).map
    fun slot => slot.1 ++ "=" ++ slot.2.text
  let scope :=
    match s.scope with
    | .unknown => ["[[Scope]]=?"]
    | .known chain => if chain.isEmpty then [] else ["[[Scope]]=" ++ chain.text]
  Text.braced (",".intercalate (bottom ++ properties ++ slots ++ scope))

/-- The slots that may have been modified, one to a line. -/
def modifiedText (s : Shape) : String :=
  let shown (v : Value) : Bool := v.maybeModified && v.maybePresentOrUnknown
  let properties := (s.properties.toList.filter fun entry => shown entry.2).map
    fun entry => "\n    " ++ entry.1.literal ++ ": " ++ entry.2.text
  let slots := (s.titledSlots.filter fun slot => shown slot.2).map
    fun slot => "\n    " ++ slot.1 ++ " = " ++ slot.2.text
  String.join (properties ++ slots)

/-- How a value changed. -/
def changeText (title : String) (v old : Value) : String :=
  "\n        changed " ++ title ++ ": " ++ v.additionsText old ++ " was: " ++ old.text

/-- How a shape differs from a smaller one, one line for each slot. -/
def differenceText (s old : Shape) : String :=
  let properties := s.properties.toList.map fun entry =>
    match old.properties.get? entry.1 with
    | .none => "\n        new property: " ++ entry.1.text
    | some before =>
      if before = entry.2 then "" else changeText ("property: " ++ entry.1.text) entry.2 before
  let slot (title : String) (v before : Value) : String :=
    if v = before then "" else changeText title v before
  let slots :=
    [slot "default_numeric_property" s.defaultNumeric old.defaultNumeric,
      slot "default_other_property" s.defaultOther old.defaultOther,
      slot "internal_prototype" s.internalPrototype old.internalPrototype,
      slot "internal_value" s.internalValue old.internalValue]
  let truth (b : Bool) : String := if b then "true" else "false"
  let scope :=
    if s.scope.isUnknown = old.scope.isUnknown then ""
    else
      "\n        changed scope_unknown: " ++ truth s.scope.isUnknown ++ " was: "
        ++ truth old.scope.isUnknown
  String.join (properties ++ slots) ++ scope

/-- A shape as data. -/
def toJson (s : Shape) : Json :=
  .record
    [("properties", .record (s.properties.toList.map fun entry => (entry.1.text, entry.2.toJson))),
      ("default_numeric_property", s.defaultNumeric.toJson),
      ("default_other_property", s.defaultOther.toJson),
      ("internal_prototype", s.internalPrototype.toJson),
      ("internal_value", s.internalValue.toJson), ("scope", s.scope.chain.toJson),
      ("scope_unknown", .bool s.scope.isUnknown)]

end ScriptHeap.Shape
