import ScriptHeap.Analysis.FixedPoint
import ScriptHeap.Host.ClassTable
import ScriptHeap.Report.Heap

/-!
# Reports on analyses
-/

namespace ScriptHeap

/-- A question to a class table. -/
def Query.report : Query → Json
  | .propertyValue c p => .array [.text "PropertyValue", .text c, .text p]
  | .functionValue c f => .array [.text "FunctionValue", .text c, .text f]
  | .call c f vs => .array [.text "CallFunction", .text c, .text f, .array (vs.map Value.report)]
  | .setProperty c p v => .array [.text "SetProperty", .text c, .text p, v.report]
  | .construct site c => .array [.text "NewObject", .nat site, .text c]

/-- A class of the host: its name and its fields. -/
def HostClass.report (c : HostClass) : Json :=
  .array [.text c.name, .array (c.fields.toList.map fun (name, v) => .array [.text name, v.report])]

/-- An event. -/
def Event.report : Event → Json
  | .propertyWrite node labels key =>
    .array [.text "write", .nat node, labels.report, .text key.literal]
  | .variable node name v context =>
    .array [.text "variable", .nat node, .text name, v.report, .text context.text]
  | .hostQuery node c member => .array [.text "query", .nat node, .text c, .text member]

/-- Who hands on the state. -/
def Handover.report : Handover → Json
  | .pending => .text "Default"
  | .done => .text "Handled"

/-- A state at a program point. -/
def ProgramPoint.reportWith (point : ProgramPoint) (s : State) : Json :=
  .array [.nat point.block, .text point.context.text, s.report]

/-- Kinds of operations as a set. -/
def OperationKind.setText (kinds : List OperationKind) : String :=
  "\x7b" ++ ", ".intercalate (kinds.map OperationKind.name) ++ "\x7d"

/-- A handler table: how many handlers it has, and for which kinds. -/
def HandlerTable.report {σ : Type} (table : HandlerTable σ) : Json :=
  .array [.nat table.size, .bool table.isEmpty, .text (OperationKind.setText table.keys)]

/-- A dispatcher: for which kinds it has ordinary rules, handlers and layers. -/
def Dispatcher.text {σ : Type} (d : Dispatcher σ) : String :=
  "Dispatcher \x7b base: " ++ OperationKind.setText OperationKind.all
    ++ ", effective: " ++ OperationKind.setText d.effective.keys
    ++ ", overrides: " ++ OperationKind.setText d.overrides.toList ++ " \x7d"

end ScriptHeap
