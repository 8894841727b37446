import ScriptHeap.Key

/-!
# Places

A place is one slot of one abstract object: a property, one of the two defaults that describe the
properties not listed, or one of the two internal slots.
-/

namespace ScriptHeap

/-- The slots of an abstract object. -/
inductive Slot where
  | property (key : Key)
  | defaultNumeric
  | defaultOther
  | internalValue
  | internalPrototype
deriving DecidableEq, Repr, Inhabited

namespace Slot

/-- The key of a property. -/
def key? : Slot → Option Key
  | .property key => some key
  | _ => none

instance : Ord Slot := ⟨compareLex (compareOn Slot.ctorIdx) (compareOn Slot.key?)⟩

instance : Std.TransOrd Slot :=
  inferInstanceAs (Std.TransCmp (compareLex (compareOn Slot.ctorIdx) (compareOn Slot.key?)))

instance : Std.LawfulEqOrd Slot where
  eq_of_compare {a b} h := by
    have parts := compareLex_eq_eq.mp h
    have ranks : a.ctorIdx = b.ctorIdx := Std.LawfulEqOrd.eq_of_compare parts.1
    have keys : a.key? = b.key? := Std.LawfulEqOrd.eq_of_compare parts.2
    cases a <;> cases b <;> simp_all [key?, Slot.ctorIdx]

/-- The text of a slot: the bare key of a property, the slot's name in double brackets otherwise. -/
def text : Slot → String
  | .property key => key.text
  | .defaultNumeric => "[[DefaultNumeric]]"
  | .defaultOther => "[[DefaultOther]]"
  | .internalValue => "[[Value]]"
  | .internalPrototype => "[[Prototype]]"

/-- A slot as data. -/
def toJson : Slot → Json
  | .property key => .tagged "Ordinary" key.toJson
  | .defaultNumeric => .text "DefaultNumeric"
  | .defaultOther => .text "DefaultOther"
  | .internalValue => .text "InternalValue"
  | .internalPrototype => .text "InternalPrototype"

end Slot

/-- One slot of one abstract object. -/
structure Place where
  label : Label
  slot : Slot
deriving DecidableEq, Repr, Inhabited

namespace Place

instance : Ord Place := ⟨compareLex (compareOn Place.label) (compareOn Place.slot)⟩

instance : Std.TransOrd Place :=
  inferInstanceAs (Std.TransCmp (compareLex (compareOn Place.label) (compareOn Place.slot)))

instance : Std.LawfulEqOrd Place where
  eq_of_compare {a b} h := by
    have parts := compareLex_eq_eq.mp h
    have labels : a.label = b.label := Std.LawfulEqOrd.eq_of_compare parts.1
    have slots : a.slot = b.slot := Std.LawfulEqOrd.eq_of_compare parts.2
    cases a
    cases b
    simp_all

/-- The text of a place. -/
def text (place : Place) : String :=
  place.label.text ++ "." ++ place.slot.text

/-- A place as data. -/
def toJson (place : Place) : Json :=
  .record [("label", place.label.toJson), ("kind", place.slot.toJson)]

end Place

end ScriptHeap
