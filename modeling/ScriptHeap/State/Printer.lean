import ScriptHeap.Json.Writer
import ScriptHeap.State.Basic

/-!
# States as text
-/

namespace ScriptHeap.State

/-- The objects of a state under the texts of their labels. -/
def titledHeap (s : State) : FinMap String HeapObject :=
  .ofList (s.heap.toList.map fun entry => (entry.1.text, entry.2.object))

/-- A state as data. -/
def toJson (s : State) : Json :=
  .record
    [("context", s.context.toJson), ("function", .nat s.function),
      ("registers", .record (s.registers.toList.map fun entry =>
        (toString entry.1, entry.2.toJson))),
      ("heap", .record (s.titledHeap.toList.map fun entry => (entry.1, entry.2.shape.toJson)))]

/-- A state as JSON text over several lines. -/
def toText (s : State) : String :=
  s.toJson.pretty

end ScriptHeap.State
