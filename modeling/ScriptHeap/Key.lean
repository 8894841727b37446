import ScriptHeap.Json.Numeral
import ScriptHeap.Relabeling
import ScriptHeap.Text.Quoted

/-!
# Property keys

A property is named by a string, or by a symbol, which is known by its label. Strings come before
symbols.
-/

namespace ScriptHeap

/-- A property key. -/
inductive Key where
  | name (s : String)
  | symbol (label : Label)
deriving DecidableEq, Repr, Inhabited

namespace Key

/-- The label of a symbol. -/
def symbol? : Key → Option Label
  | .name _ => none
  | .symbol label => some label

/-- The string of a name. -/
def name? : Key → Option String
  | .name s => some s
  | .symbol _ => none

instance : Ord Key := ⟨compareLex (compareOn Key.symbol?) (compareOn Key.name?)⟩

instance : Std.TransOrd Key :=
  inferInstanceAs (Std.TransCmp (compareLex (compareOn Key.symbol?) (compareOn Key.name?)))

instance : Std.LawfulEqOrd Key where
  eq_of_compare {a b} h := by
    have parts := compareLex_eq_eq.mp h
    have symbols : a.symbol? = b.symbol? :=
      Std.LawfulEqOrd.eq_of_compare parts.1
    have names : a.name? = b.name? := Std.LawfulEqOrd.eq_of_compare parts.2
    cases a <;> cases b <;> simp_all [symbol?, name?]

/-- Array indices are the numbers below this one. -/
def indexLimit : Nat := 4294967295

/-- Whether characters are the decimal digits, without leading zeros, of an array index. A number
    that does not fit a word is none. -/
def isIndex (chars : List Char) : Bool :=
  match chars with
  | [] => false
  | '0' :: _ :: _ => false
  | _ => chars.all Char.isDigit && (Json.Numeral.word? chars).any (· < indexLimit)

/-- Whether a key is an array index, and so described by the numeric default of an object. -/
def isNumeric : Key → Bool
  | .name s => isIndex s.toList
  | .symbol _ => false

/-- What a key becomes under a relabeling. -/
def relabel (key : Key) (r : Relabeling) : FinSet Key :=
  match key with
  | .name _ => FinSet.singleton key
  | .symbol label => (r.image label).map .symbol

/-- Put one label in the place of another. -/
def replaceLabel (old new : Label) : Key → Key
  | .symbol label => if label = old then .symbol new else .symbol label
  | key => key

/-- Whether a key is the symbol of a label. -/
def containsLabel (label : Label) : Key → Bool
  | .symbol l => l = label
  | .name _ => false

/-- The bare text of a key. -/
def text : Key → String
  | .name s => s
  | .symbol label => label.text

/-- Whether a name can stand without quotes. -/
def isPlain (s : String) : Bool :=
  !s.isEmpty && s.toList.all fun c => c.isAlphanum || c == '_' || c == '$'

/-- The text of a key as in an object literal: plain names as they are, others between quotes,
    symbols between square brackets. -/
def literal : Key → String
  | .name s => if isPlain s then s else Text.quoted s
  | .symbol label => "[" ++ label.text ++ "]"

/-- A key as data. -/
def toJson : Key → Json
  | .name s => .tagged "Str" (.text s)
  | .symbol label => .tagged "Symbol" label.toJson

end Key

end ScriptHeap
