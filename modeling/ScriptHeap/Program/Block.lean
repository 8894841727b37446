import ScriptHeap.Digraph

/-!
# Nodes, blocks and functions

A node is an operation in its place. A block is a straight run of nodes that belongs to a function.
-/

namespace ScriptHeap

/-- An operation in its place. -/
structure Node where
  index : Nat
  /-- The block that holds the node. -/
  block : Nat
  operation : Operation
deriving Inhabited

namespace Node

/-- The kind of the operation. -/
def kind (node : Node) : OperationKind :=
  node.operation.kind

/-- The text of a node: its number in three places, and its operation. -/
def text (node : Node) : String :=
  let digits := Nat.toDigits 10 node.index
  String.ofList (List.replicate (3 - digits.length) '0' ++ digits) ++ " " ++ node.operation.text

/-- The data of a node. -/
def schema : Schema :=
  .record [("index", .word), ("block", .word), ("operation", Operation.schema)]

/-- A node as data. -/
def toDatum (node : Node) : Datum :=
  .record [("index", .word node.index), ("block", .word node.block),
    ("operation", node.operation.toDatum)]

/-- The node of data. -/
def ofDatum? : Datum → Option Node
  | .record [(_, index), (_, block), (_, operation)] => do
    return ⟨← index.word?, ← block.word?, ← Operation.ofDatum? operation⟩
  | _ => none

end Node

/-- A straight run of nodes. -/
structure Block where
  index : Nat
  /-- The function that the block belongs to. -/
  function : Nat
  nodes : List Node
deriving Inhabited

namespace Block

/-- Whether some node is a marker. -/
def hasMarker (block : Block) : Bool :=
  block.nodes.any fun node => node.kind = .foreignMarker

/-- A call ends its block. A marker is alone in its block, which has at most one successor. -/
def check (block : Block) (successors : Nat) : Except Error Unit :=
  match block.nodes.dropLast.find? fun node => node.kind = .call with
  | some call => .error (.invariant (.callInsideBlock call.index block.index))
  | none =>
    if !block.hasMarker then .ok ()
    else if block.nodes.length ≠ 1 then
      .error (.invariant (.markerNotAlone block.index (block.nodes.length - 1)))
    else if 1 < successors then
      .error (.invariant (.markerSuccessors block.index successors))
    else .ok ()

/-- The text of a block: a heading, and a line for each node. -/
def text (block : Block) : String :=
  "[ Block: " ++ toString block.index ++ " ]\n"
    ++ String.join (block.nodes.map fun node => node.text ++ "\n")

instance : Vertex Block := ⟨Block.index, Block.text⟩

/-- The data of a block. -/
def schema : Schema :=
  .record [("index", .word), ("function", .word), ("nodes", .list Node.schema)]

/-- A block as data. -/
def toDatum (block : Block) : Datum :=
  .record [("index", .word block.index), ("function", .word block.function),
    ("nodes", .ofList Node.toDatum block.nodes)]

/-- The block of data. -/
def ofDatum? : Datum → Option Block
  | .record [(_, index), (_, function), (_, nodes)] => do
    return ⟨← index.word?, ← function.word?, ← nodes.list? Node.ofDatum?⟩
  | _ => none

end Block

/-- A function of the analysed program. The program body has no name. -/
structure Function where
  index : Nat
  name : Option String
  parameters : List String
  /-- The declared variables, parameters apart. -/
  locals : List String
  /-- The block where the function starts. -/
  entry : Nat
deriving DecidableEq, Repr, Inhabited

namespace Function

/-- The name of a function in listings. -/
def title (f : Function) : String :=
  f.name.getD "<main>"

/-- Whether this is a program body. -/
def isMain (f : Function) : Bool :=
  f.name.isNone

/-- The position of a name among the parameters. -/
def parameterIndex? (f : Function) (name : String) : Option Nat :=
  f.parameters.findIdx? (· == name)

/-- Whether a name is a parameter or a declared variable. -/
def declares (f : Function) (name : String) : Bool :=
  (f.parameterIndex? name).isSome || f.locals.contains name

/-- The data of a function. -/
def schema : Schema :=
  .record [("index", .word), ("name", .option .text), ("parameters", .list .text),
    ("variables", .list .text), ("entry", .word)]

/-- A function as data. -/
def toDatum (f : Function) : Datum :=
  .record [("index", .word f.index), ("name", .ofOption .text f.name),
    ("parameters", .ofList .text f.parameters), ("variables", .ofList .text f.locals),
    ("entry", .word f.entry)]

/-- The function of data. -/
def ofDatum? : Datum → Option Function
  | .record [(_, index), (_, name), (_, parameters), (_, locals), (_, entry)] => do
    return ⟨← index.word?, ← name.option? Datum.text?, ← parameters.list? Datum.text?,
      ← locals.list? Datum.text?, ← entry.word?⟩
  | _ => none

end Function

end ScriptHeap
