import ScriptHeap.Data.FinSet
import ScriptHeap.Json.Basic

/-!
# Labels of abstract heap objects

A label stands for all objects of one kind that one program node creates. Labels of host classes
carry the class name as well. Labels are ordered by node, then by kind, then by class name.
-/

namespace ScriptHeap

/-- The kinds of abstract objects. The last three are modelled by the host. -/
inductive Kind where
  | object
  | function
  | array
  | symbol
  | string
  | number
  | boolean
  | date
  | regExp
  | error
  | math
  | activation
  | arguments
  /-- An instance of a host class. -/
  | foreignObject
  /-- A host class that has not been instantiated. -/
  | foreignType
  /-- The root of the host's namespace. -/
  | foreignRoot
deriving DecidableEq, Repr, Inhabited

namespace Kind

/-- Every kind, in order. -/
def all : List Kind :=
  [.object, .function, .array, .symbol, .string, .number, .boolean, .date, .regExp, .error, .math,
    .activation, .arguments, .foreignObject, .foreignType, .foreignRoot]

/-- Whether objects of this kind live on the host's side. -/
def isForeign : Kind → Bool
  | .foreignObject | .foreignType | .foreignRoot => true
  | _ => false

/-- The name of a kind in diagnostics. -/
def name : Kind → String
  | .object => "Object"
  | .function => "Function"
  | .array => "Array"
  | .symbol => "Symbol"
  | .string => "String"
  | .number => "Number"
  | .boolean => "Boolean"
  | .date => "Date"
  | .regExp => "RegExp"
  | .error => "Error"
  | .math => "Math"
  | .activation => "activation"
  | .arguments => "arguments"
  | .foreignObject => "ForeignObject"
  | .foreignType => "ForeignType"
  | .foreignRoot => "ForeignRoot"

/-- The name of a kind in data. -/
def caseName : Kind → String
  | .activation => "Activation"
  | .arguments => "Arguments"
  | .foreignType => "ForeignTypeToken"
  | kind => kind.name

/-- The kind with a given name in data. -/
def ofCaseName? (s : String) : Option Kind :=
  all.find? fun kind => kind.caseName == s

instance : Ord Kind := ⟨compareOn Kind.ctorIdx⟩

instance : Std.TransOrd Kind := inferInstanceAs (Std.TransCmp (compareOn Kind.ctorIdx))

instance : Std.LawfulEqOrd Kind where
  eq_of_compare {a b} h := by
    have same : a.ctorIdx = b.ctorIdx := Std.LawfulEqOrd.eq_of_compare h
    cases a <;> cases b <;> first | rfl | exact absurd same (by decide)

end Kind

/-- The identity of the objects of one kind that one node creates. -/
structure Label where
  node : Nat
  kind : Kind
  /-- The class name, for labels of host classes. -/
  className : Option String := none
deriving DecidableEq, Repr, Inhabited

namespace Label

instance : Ord Label :=
  ⟨compareLex (compareOn Label.node) (compareLex (compareOn Label.kind) (compareOn Label.className))⟩

instance : Std.TransOrd Label :=
  inferInstanceAs (Std.TransCmp (compareLex (compareOn Label.node)
    (compareLex (compareOn Label.kind) (compareOn Label.className))))

instance : Std.LawfulEqOrd Label where
  eq_of_compare {a b} h := by
    have parts := compareLex_eq_eq.mp h
    have later := compareLex_eq_eq.mp parts.2
    have nodes : a.node = b.node := Std.LawfulEqOrd.eq_of_compare parts.1
    have kinds : a.kind = b.kind := Std.LawfulEqOrd.eq_of_compare later.1
    have names : a.className = b.className :=
      Std.LawfulEqOrd.eq_of_compare later.2
    cases a
    cases b
    simp_all

/-- Whether the objects of this label live on the host's side. -/
def isForeign (label : Label) : Bool :=
  label.kind.isForeign

/-- The text of a label: its kind, its class name between angle brackets, and its node. -/
def text (label : Label) : String :=
  match label.className with
  | some name => "@" ++ label.kind.name ++ "<" ++ name ++ ">#node" ++ toString label.node
  | none => "@" ++ label.kind.name ++ "#node" ++ toString label.node

/-- A label as data. -/
def toJson (label : Label) : Json :=
  .record [("node", .nat label.node), ("kind", .text label.kind.caseName),
    ("foreign_name", .option .text label.className)]

end Label

/-- A set of labels. -/
abbrev LabelSet := FinSet Label

namespace LabelSet

/-- The labels of a set between braces. -/
def text (labels : LabelSet) : String :=
  "\x7b" ++ ",".intercalate (labels.toList.map Label.text) ++ "\x7d"

/-- A set of labels as data. -/
def toJson (labels : LabelSet) : Json :=
  .array (labels.toList.map Label.toJson)

end LabelSet

end ScriptHeap
