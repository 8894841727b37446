import ScriptHeap.Program.FlowGraph

/-!
# Programs described as data

A program can be described step by step: its functions, further blocks, the nodes of each block and
the edges. An operation is described by its name and its operands, or given as data with named
fields.
-/

namespace ScriptHeap

namespace Json

/-- Read a value by its schema. -/
def decode? {α : Type} (schema : Schema) (ofDatum? : Datum → Option α) (j : Json) : Option α :=
  (j.datum? schema).bind ofDatum?

/-- Read a value, or fail as malformed data does. -/
def expect {α : Type} (read : Json → Option α) (j : Json) : Except Error α :=
  match read j with
  | some a => .ok a
  | none => .error .json

end Json

namespace Operation

/-- An operation described by its name and its operands. A missing operand counts as `null`. -/
def ofOperands? (name : String) (operands : List Json) : Option Operation := do
  let operand (i : Nat) : Json := operands.getD i .null
  let word (i : Nat) : Option Nat := (operand i).word?
  let wordOrNone (i : Nat) : Option (Option Nat) := (operand i).nullable? Json.word?
  let text (i : Nat) : Option String := (operand i).text?
  match name with
  | "constant" =>
    return .constant (← word 0) (← (operand 1).decode? Constant.schema Constant.ofDatum?)
  | "read_variable" => return .readVariable (← word 0) (← text 1)
  | "write_variable" => return .writeVariable (← text 0) (← word 1)
  | "read_property" => return .readProperty (← wordOrNone 0) (← word 1) (.fixed (← text 2))
  | "write_property" => return .writeProperty (← word 0) (.fixed (← text 1)) (← word 2)
  | "new_object" => return .newObject (← word 0)
  | "method_call" =>
    return .methodCall (← wordOrNone 0) (← word 1) (← text 2) (← (operand 3).words?)
  | "call" => return .functionCall (← wordOrNone 0) (← word 1) (← (operand 2).words?)
  | "construct" => return .construct (← word 0) (← word 1) (← (operand 2).words?)
  | "binary" =>
    let op ← (operand 1).decode? BinaryOperator.schema BinaryOperator.ofDatum?
    return .binaryOperator (← word 0) op (← word 2) (← word 3)
  | "foreign_marker" => return .foreignMarker (← word 0)
  | "nop" => return .nop
  | _ => none

/-- An operation given as data, in which its fields must be an object. -/
def ofNamedFields? (j : Json) : Option Operation := do
  let (_, payload) ← j.variant?
  match payload.bind Json.array? with
  | some _ => none
  | none => j.decode? schema ofDatum?

/-- An operation, described or given as data. -/
def ofDescription (j : Json) : Except Error Operation :=
  match j with
  | .array (name :: operands) =>
    Json.expect (fun name => do ofOperands? (← name.text?) operands) name
  | j => j.expect ofNamedFields?

end Operation

namespace FlowGraph

/-- Add a described function. -/
def addDescribedFunction (fg : FlowGraph) (f : Json) : Except Error (Nat × FlowGraph) := do
  return fg.addFunction (← (f.member "name").expect Json.text?)
    (← (f.member "params").expect Json.strings?) (← (f.member "vars").expect Json.strings?)

/-- Add a described node: its block and its operation. -/
def addDescribedNode (fg : FlowGraph) (node : Json) : Except Error FlowGraph := do
  match node with
  | .array [block, op] =>
    let op ← Operation.ofDescription op
    return (← fg.addNode (← block.expect Json.word?) op).2
  | _ => throw .json

/-- Add a described edge: its head and its tail. -/
def addDescribedEdge (fg : FlowGraph) (edge : Json) : Except Error FlowGraph := do
  match ← edge.expect Json.words? with
  | [head, tail] => fg.addEdge head tail
  | _ => throw .json

/-- Build a described program; the first failure ends it. -/
def ofDescription (j : Json) : Except Error FlowGraph := do
  match j.member "json" with
  | .null =>
    let part (name : String) := (j.member name).expect Json.items?
    let fg ← (← part "functions").foldlM
      (fun fg f => Prod.snd <$> fg.addDescribedFunction f) initial
    let fg ← (← part "extra").foldlM
      (fun fg f => do return (← fg.newBlock (← f.expect Json.word?)).2) fg
    let fg ← (← part "nodes").foldlM addDescribedNode fg
    (← part "edges").foldlM addDescribedEdge fg
  | text => ofText (← text.expect Json.text?)

end FlowGraph

end ScriptHeap
