import ScriptHeap.Report.Value
import ScriptHeap.Shape.Printer
import ScriptHeap.State.Printer

/-!
# Reports on objects and states
-/

namespace ScriptHeap

namespace HeapObject

/-- An object: whether it may be changed, and its slots. -/
def report (o : HeapObject) : Json :=
  let s := o.shape
  .record
    [("w", .bool o.writable),
      ("props", .array (s.properties.toList.map fun entry =>
        .array [.text entry.1.literal, entry.2.report])),
      ("num", s.defaultNumeric.report), ("other", s.defaultOther.report),
      ("proto", s.internalPrototype.report), ("value", s.internalValue.report),
      ("scope", if s.scope.isUnknown then .text "?" else s.scope.chain.report)]

/-- Everything about an object. -/
def profile (o : HeapObject) : Json :=
  let s := o.shape
  .record
    [("obj", o.report), ("display", .text s.text), ("unknown", .bool s.isUnknown),
      ("all_none", .bool s.isAllNone), ("some_none", .bool s.isSomeNone),
      ("some_modified", .bool s.isSomeModified), ("scope_unknown", .bool s.scope.isUnknown),
      ("names", .texts (s.properties.keys.map Key.text)), ("labels", s.labels.report),
      ("print_modified", .text s.modifiedText)]

end HeapObject

namespace State

/-- The property that a register equals on every path. -/
def equalsReport (s : State) (r : Register) : Json :=
  .option (fun (label, key) => .text (label.text ++ "." ++ key.literal)) (s.mustEquals.get? r)

/-- The node that wrote a register on every path. -/
def defReport (s : State) (r : Register) : Json :=
  .option .nat (s.mustDefs.get? r)

/-- A state: its place, its registers and its heap. -/
def report (s : State) : Json :=
  .record
    [("at", .text (s.context.text ++ " in " ++ toString s.function)),
      ("regs", .array (s.registers.toList.map fun (r, v) =>
        .array [.nat r, v.report, s.defReport r, s.equalsReport r])),
      ("heap", .array (s.titledHeap.toList.map fun (title, o) => .array [.text title, o.report]))]

end State

end ScriptHeap
