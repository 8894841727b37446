import ScriptHeap.Options
import ScriptHeap.Program.FlowGraph
import ScriptHeap.Report.Value

/-!
# Reports on programs and options
-/

namespace ScriptHeap

namespace Operation

/-- Everything about an operation. -/
def profile (op : Operation) : Json :=
  .record
    [("display", .text op.text), ("kind", .text op.kind.name), ("result", .option .nat op.result?),
      ("json", .option .text (Json.format.write? op.toDatum))]

end Operation

namespace Node

/-- A node: its place, its kind, its result and its text. -/
def report (node : Node) : Json :=
  .array
    [.nat node.index, .nat node.block, .text node.kind.name, .option .nat node.operation.result?,
      .text node.text]

end Node

namespace Function

/-- A function, with what it declares. -/
def report (f : Function) : Json :=
  .record
    [("index", .nat f.index), ("name", .text f.title), ("main", .bool f.isMain),
      ("params", .texts f.parameters), ("vars", .texts f.locals), ("entry", .nat f.entry)]

end Function

namespace Block

/-- A block, with its nodes. -/
def report (block : Block) : Json :=
  .record
    [("index", .nat block.index), ("function", .nat block.function),
      ("nodes", .array (block.nodes.map Node.report)),
      ("first", .option (fun node => .nat node.index) block.nodes.head?),
      ("marker", .bool block.hasMarker), ("display", .text block.text)]

end Block

namespace Options

/-- Everything about the options. -/
def profile (options : Options) : Json :=
  .record
    [("copy_on_write_disabled", .bool options.copyOnWriteDisabled),
      ("foreign_root_name", .text options.foreignRootName),
      ("type_constructor_name", .text options.typeConstructorName),
      ("max_iterations", .text (toString options.maxIterations)),
      ("continue_on_cross_language_error", .bool options.continueOnHostError),
      ("json", .option .text options.toText?), ("default", .bool (options = {})),
      ("round_trip", .bool (options.toText?.bind ofText? = some options))]

end Options

end ScriptHeap
