import ScriptHeap.Json.Writer
import ScriptHeap.Place
import ScriptHeap.ScopeChain
import ScriptHeap.Value.Printer

/-!
# Reports on values

A report shows a thing in short, and a profile shows everything that can be asked of it. Both are
JSON values.
-/

namespace ScriptHeap

namespace Json

/-- A list of strings. -/
def texts (ss : List String) : Json := .array (ss.map .text)

/-- A list of numbers. -/
def nats (ns : List Nat) : Json := .array (ns.map .nat)

/-- An order as a number: -1, 0 or 1. -/
def ordering : Ordering → Json
  | .lt => .number "-1"
  | .eq => .number "0"
  | .gt => .number "1"

end Json

namespace Label

/-- Everything about a label. -/
def profile (label : Label) : Json :=
  .record
    [("display", .text label.text), ("node", .text (toString label.node)),
      ("kind", .text label.kind.name), ("name", .option .text label.className),
      ("foreign", .bool label.isForeign), ("tag", .text (TypeTag.ofKind label.kind).name),
      ("json", .text label.toJson.compact)]

end Label

namespace LabelSet

/-- The labels of a set. -/
def report (labels : LabelSet) : Json := .texts (labels.toList.map Label.text)

end LabelSet

namespace Key

/-- Everything about a property key. -/
def profile (key : Key) : Json :=
  .record
    [("display", .text key.text), ("escaped", .text key.literal), ("numeric", .bool key.isNumeric),
      ("str", .option .text key.name?), ("json", .text key.toJson.compact)]

end Key

namespace Place

/-- Everything about a place. -/
def profile (place : Place) : Json :=
  .record
    [("display", .text place.text), ("label", .text place.label.text),
      ("json", .text place.toJson.compact)]

end Place

namespace Token

/-- Everything about a token. -/
def profile (token : Token) : Json :=
  .record
    [("display", .text token.text), ("node", .text (toString token.node)),
      ("key_node", .text (toString token.reason.node)), ("any", .bool token.isAny),
      ("json", .text token.toJson.compact)]

end Token

namespace ScopeChain

/-- A chain, or `null` for the empty one. -/
def report (chain : ScopeChain) : Json :=
  if chain.isEmpty then .null else .text chain.text

/-- Everything about a chain. -/
def profile (chain : ScopeChain) : Json :=
  match chain.levels with
  | [] => .null
  | level :: rest =>
    .record
      [("display", .text chain.text), ("objects", level.report), ("next", report ⟨rest⟩),
        ("labels", chain.labels.report), ("json", .text chain.toJson.compact)]

end ScopeChain

namespace Value

/-- A value: the number of its flags, and its text. -/
def report (v : Value) : Json := .text (toString v.flags.bits ++ ":" ++ v.text)

/-- A part on the host's side: its sort, its label and its class. -/
def HostPart.report (part : HostPart) : Json :=
  let sort :=
    match part with
    | .root _ => "Root"
    | .type _ => "TypeToken"
    | .object _ => "Object"
  .array [.text sort, .text part.label.text, .option .text part.className]

/-- Everything about a value. -/
def profile (v : Value) : Json :=
  .record
    [("value", v.report), ("unknown", .bool v.isUnknown), ("none", .bool v.isNone),
      ("maybe", .record
        [("absent", .bool v.maybeAbsent), ("modified", .bool v.maybeModified),
          ("present", .bool v.maybePresent), ("present_or_unknown", .bool v.maybePresentOrUnknown),
          ("object", .bool v.maybeObject), ("primitive", .bool v.maybePrimitive),
          ("undef", .bool v.maybeUndefined), ("str", .bool v.maybeString),
          ("num", .bool v.maybeNumber)]),
      ("get_str", .option .text v.exactString?), ("string_part", .option .text v.string),
      ("labels", v.labels.report), ("all_labels", v.allLabels.report),
      ("foreign", .option HostPart.report v.hostParts.head?),
      ("foreign_labels", .array (v.hostParts.map HostPart.report)),
      ("is_foreign", .array
        [.bool (v.hostParts.any HostPart.isObject), .bool (v.hostParts.any HostPart.isType),
          .bool (v.hostParts.any HostPart.isRoot)]),
      ("attributes", .array [.bool v.isDontDelete, .bool v.isDontEnum, .bool v.isReadOnly]),
      ("partitioned", .bool v.isPartitioned), ("tokens", .texts (v.tokens.map Token.text))]

end Value

end ScriptHeap
