import ScriptHeap.Token
import ScriptHeap.Value.Flags

/-!
# Abstract values

An abstract value describes what a register or a slot of an object may hold: flags for primitives
and for the state of the slot, one known string, the labels of the objects it may be, and, when it
has been split, its parts under their tokens. A value that has been split still describes the whole:
its own fields cover those of its parts.
-/

namespace ScriptHeap

/-- An abstract value. -/
structure Value where
  flags : Flags
  /-- A single known string. It is there only when the flag for any string is not set. -/
  string : Option String
  labels : LabelSet
  /-- The parts of a value that has been split, in the order of their tokens. -/
  parts : List (Token × Value)

namespace Value

/-! ### Equality -/

mutual

/-- Equality of values is decidable. -/
def decEq : (a b : Value) → Decidable (a = b)
  | ⟨f, s, l, p⟩, ⟨f', s', l', p'⟩ =>
    if own : f = f' ∧ s = s' ∧ l = l' then
      match decEqParts p p' with
      | isTrue same => isTrue (by obtain ⟨rfl, rfl, rfl⟩ := own; rw [same])
      | isFalse different => isFalse fun same => different (by cases same; rfl)
    else isFalse fun same => own (by cases same; exact ⟨rfl, rfl, rfl⟩)

/-- Equality of parts is decidable. -/
def decEqParts : (p q : List (Token × Value)) → Decidable (p = q)
  | [], [] => isTrue rfl
  | [], _ :: _ => isFalse nofun
  | _ :: _, [] => isFalse nofun
  | (t, v) :: p, (u, w) :: q =>
    if token : t = u then
      match decEq v w with
      | isFalse different => isFalse fun same => different (by cases same; rfl)
      | isTrue head =>
        match decEqParts p q with
        | isFalse different => isFalse fun same => different (by cases same; rfl)
        | isTrue tail => isTrue (by rw [token, head, tail])
    else isFalse fun same => token (by cases same; rfl)

end

instance : DecidableEq Value := decEq

/-! ### Constructors -/

/-- The value with the given flags and nothing else. -/
def ofFlags (flags : Flags) : Value :=
  ⟨flags, none, ∅, []⟩

/-- The bottom value. -/
def none : Value := ofFlags {}

instance : Inhabited Value := ⟨none⟩

/-- The bottom value of a slot that may have been modified. -/
def noneModified : Value := ofFlags { modified := true }

/-- A value that is not summarised here. -/
def unknown : Value := ofFlags { unknown := true }

/-- The value of a slot that holds nothing. -/
def absent : Value := ofFlags { absent := true }

/-- The value of a slot that holds nothing and may have been modified. -/
def absentModified : Value := ofFlags { absent := true, modified := true }

/-- The value `undefined`. -/
def undefined : Value := ofFlags { undefined := true }

/-- The value `null`. -/
def null : Value := ofFlags { null := true }

/-- One truth value. -/
def bool (b : Bool) : Value := ofFlags (if b then { isTrue := true } else { isFalse := true })

/-- Either truth value. -/
def anyBool : Value := ofFlags { isTrue := true, isFalse := true }

/-- Any number. -/
def anyNumber : Value := ofFlags { number := true }

/-- Any string. -/
def anyString : Value := ofFlags { anyString := true }

/-- Any primitive value. -/
def anyPrimitive : Value :=
  ofFlags { undefined := true, null := true, isTrue := true, isFalse := true, number := true,
            anyString := true }

/-- One known string. -/
def ofString (s : String) : Value := ⟨{}, some s, ∅, []⟩

/-- An object of one of the given labels. -/
def objects (labels : LabelSet) : Value := ⟨{}, .none, labels, []⟩

/-- An object of one label. -/
def object (label : Label) : Value := objects (FinSet.singleton label)

/-! ### Queries -/

/-- Whether the value is not summarised here. -/
def isUnknown (v : Value) : Bool := v.flags.unknown

/-- Whether this is bottom. Whether the slot was modified, and its attributes, do not count. -/
def isNone (v : Value) : Bool :=
  !(v.flags.somePrimitive || v.flags.absent || v.flags.unknown) && v.string.isNone
    && v.labels.isEmpty

/-- Whether the slot may hold nothing. -/
def maybeAbsent (v : Value) : Bool := v.flags.absent

/-- Whether the slot may have been modified. -/
def maybeModified (v : Value) : Bool := v.flags.modified

/-- Whether some primitive is possible. -/
def maybePrimitive (v : Value) : Bool := v.flags.somePrimitive || v.string.isSome

/-- Whether some object is possible. -/
def maybeObject (v : Value) : Bool := !v.labels.isEmpty

/-- Whether some actual value is possible. -/
def maybePresent (v : Value) : Bool := v.maybePrimitive || v.maybeObject

/-- Whether some actual value is possible, here or where the value is summarised. -/
def maybePresentOrUnknown (v : Value) : Bool := v.isUnknown || v.maybePresent

/-- Whether `undefined` is possible. -/
def maybeUndefined (v : Value) : Bool := v.flags.undefined

/-- Whether some string is possible. -/
def maybeString (v : Value) : Bool := v.flags.anyString || v.string.isSome

/-- Whether some number is possible. -/
def maybeNumber (v : Value) : Bool := v.flags.number

/-- The string, if the value is exactly one string. -/
def exactString? (v : Value) : Option String :=
  if v.flags.somePrimitive || v.isUnknown || v.maybeObject then .none else v.string

/-- Whether the slot certainly cannot be deleted. -/
def isDontDelete (v : Value) : Bool := v.flags.dontDelete

/-- Whether the slot is certainly skipped by enumeration. -/
def isDontEnum (v : Value) : Bool := v.flags.dontEnum

/-- Whether the slot certainly cannot be written. -/
def isReadOnly (v : Value) : Bool := v.flags.readOnly

/-- Whether the value has been split. -/
def isPartitioned (v : Value) : Bool := !v.parts.isEmpty

/-- The part under a token. -/
def part? (v : Value) (token : Token) : Option Value := Assoc.find? token v.parts

/-- The tokens of the parts, in order. -/
def tokens (v : Value) : List Token := v.parts.map Prod.fst

mutual

/-- Every label of the value and of its parts. -/
def allLabels : Value → LabelSet
  | ⟨_, _, labels, parts⟩ => labels ∪ allLabelsOfParts parts

def allLabelsOfParts : List (Token × Value) → LabelSet
  | [] => ∅
  | (_, v) :: rest => allLabels v ∪ allLabelsOfParts rest

end

mutual

/-- Whether a label occurs in the value or in its parts. -/
def containsLabel (label : Label) : Value → Bool
  | ⟨_, _, labels, parts⟩ => labels.contains label || partsContainLabel label parts

def partsContainLabel (label : Label) : List (Token × Value) → Bool
  | [] => false
  | (_, v) :: rest => containsLabel label v || partsContainLabel label rest

end

/-! ### The host's side -/

/-- How an object relates to the host. -/
inductive HostPart where
  /-- The root of the host's namespace. -/
  | root (label : Label)
  /-- A host class. -/
  | type (label : Label)
  /-- An instance of a host class. -/
  | object (label : Label)
deriving DecidableEq, Repr

namespace HostPart

/-- The label of the object. -/
def label : HostPart → Label
  | .root label | .type label | .object label => label

/-- The class name. The root has none. -/
def className (part : HostPart) : Option String := part.label.className

/-- How the objects of a label relate to the host, if they do. -/
def ofLabel? (label : Label) : Option HostPart :=
  match label.kind with
  | .foreignRoot => some (.root label)
  | .foreignType => some (.type label)
  | .foreignObject => some (.object label)
  | _ => Option.none

def isRoot : HostPart → Bool
  | .root _ => true
  | _ => false

def isType : HostPart → Bool
  | .type _ => true
  | _ => false

def isObject : HostPart → Bool
  | .object _ => true
  | _ => false

end HostPart

/-- The objects on the host's side, in the order of their labels. -/
def hostParts (v : Value) : List HostPart :=
  v.labels.toList.filterMap HostPart.ofLabel?

/-! ### Join -/

/-- Two known strings agree or become any string; a known string is dropped where any string is
    possible. The result is the flag for any string and the string that stays known. -/
def joinStrings (anyString : Bool) (a b : Option String) : Bool × Option String :=
  if anyString then (true, .none)
  else
    match a, b with
    | some s, some t => if s = t then (false, some s) else (true, .none)
    | some s, .none => (false, some s)
    | .none, b => (false, b)

mutual

/-- The join of two values. An unknown value absorbs all else, since what it stands for is not
    available here. Parts are kept apart where both sides are split, or where the other side adds
    nothing. -/
def join : Value → Value → Value
  | ⟨f, s, l, p⟩, b =>
    if f.unknown || b.isUnknown then unknown
    else if ⟨f, s, l, p⟩ = b then b
    else
      let flags := f.join b.flags
      let (anyString, string) := joinStrings flags.anyString s b.string
      let parts :=
        if p.isEmpty then
          if (⟨f, s, l, p⟩ : Value).isNone then b.parts else []
        else if b.parts.isEmpty then
          if b.isNone then p else []
        else joinParts p b.parts
      ⟨{ flags with anyString }, string, l ∪ b.labels, parts⟩

/-- The parts of two values, joined where a token is in both. -/
def joinParts : List (Token × Value) → List (Token × Value) → List (Token × Value)
  | [], q => q
  | (t, v) :: p, q =>
    match Assoc.find? t q with
    | some w => Assoc.insert t (join v w) (joinParts p q)
    | Option.none => Assoc.insert t v (joinParts p q)

end

/-- The join of some values, from the left. A single value stays as it is, and there being none is
    bottom. -/
def joinAll : List Value → Value
  | [] => none
  | v :: rest => rest.foldl join v

/-- The value without its parts. -/
def collapse (v : Value) : Value := { v with parts := [] }

/-- The value that is split into the given parts: their join, with the parts kept. -/
def partitioned (parts : FinMap Token Value) : Value :=
  { parts.values.foldl (fun summary part => summary.join part.collapse) none with
    parts := parts.toList }

/-! ### Restrictions -/

/-- The slot may hold nothing. -/
def joinAbsent (v : Value) : Value := { v with flags := { v.flags with absent := true } }

/-- The slot may have been modified. -/
def joinModified (v : Value) : Value := { v with flags := { v.flags with modified := true } }

/-- The slot has not been modified. -/
def notModified (v : Value) : Value := { v with flags := { v.flags with modified := false } }

/-- The slot holds something. -/
def notAbsent (v : Value) : Value := { v with flags := { v.flags with absent := false } }

/-- The objects alone. -/
def objectsOnly (v : Value) : Value := objects v.labels

/-- The primitives and the objects that the host has no say in, no longer split. -/
def notForeign (v : Value) : Value :=
  { v.collapse with labels := v.labels.filter fun label => !label.isForeign }

/-- Without the attributes of the slot. -/
def withoutAttributes (v : Value) : Value := { v with flags := v.flags.withoutAttributes }

/-- The slot cannot be deleted. -/
def setDontDelete (v : Value) : Value := { v with flags := { v.flags with dontDelete := true } }

/-- The slot is skipped by enumeration. -/
def setDontEnum (v : Value) : Value := { v with flags := { v.flags with dontEnum := true } }

/-- The slot cannot be written. -/
def setReadOnly (v : Value) : Value := { v with flags := { v.flags with readOnly := true } }

/-- Without the parts that were split off at one of the nodes. -/
def removeParts (v : Value) (nodes : FinSet Nat) : Value :=
  { v with parts := v.parts.filter fun part => !nodes.contains part.1.node }

/-! ### Labels -/

mutual

/-- Relabel the value and its parts. -/
def relabel (r : Relabeling) : Value → Value
  | ⟨flags, string, labels, parts⟩ => ⟨flags, string, r.imageAll labels, relabelParts r parts⟩

def relabelParts (r : Relabeling) : List (Token × Value) → List (Token × Value)
  | [] => []
  | (t, v) :: rest => (t, relabel r v) :: relabelParts r rest

end

mutual

/-- Put one label in the place of another, in the value and its parts. Unknown values are left
    alone, and so are values without the label. -/
def replaceLabel (old new : Label) : Value → Value
  | ⟨flags, string, labels, parts⟩ =>
    if flags.unknown || !containsLabel old ⟨flags, string, labels, parts⟩ then
      ⟨flags, string, labels, parts⟩
    else
      let labels := if labels.contains old then (labels.erase old).insert new else labels
      ⟨flags, string, labels, replaceLabelInParts old new parts⟩

def replaceLabelInParts (old new : Label) : List (Token × Value) → List (Token × Value)
  | [] => []
  | (t, v) :: rest => (t, replaceLabel old new v) :: replaceLabelInParts old new rest

end

mutual

/-- Forget the numbers of all tokens. -/
def anonymous : Value → Value
  | ⟨flags, string, labels, parts⟩ => ⟨flags, string, labels, anonymousParts parts⟩

def anonymousParts : List (Token × Value) → List (Token × Value)
  | [] => []
  | (t, v) :: rest => (t.anonymous, anonymous v) :: anonymousParts rest

end

end Value

end ScriptHeap
