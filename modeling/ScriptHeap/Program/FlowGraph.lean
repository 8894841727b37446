import ScriptHeap.Json.Datum
import ScriptHeap.Program.Block

/-!
# Flow graphs

A flow graph connects the blocks of a program. Its first function is the program body. It is put
together by four steps: adding a function with its entry block, adding a block to a function, adding
a node to a block, and joining two blocks by an edge. A flow graph that was read from data need not
be one that these steps can make.
-/

namespace ScriptHeap

/-- The flow graph of a program. -/
structure FlowGraph where
  graph : Digraph Block
  functions : List Function
  /-- The block of each node. -/
  nodeBlocks : FinMap Nat Nat
  /-- The number of the next block. -/
  nextBlock : Nat

namespace FlowGraph

/-- Add a function and its entry block. -/
def pushFunction (fg : FlowGraph) (name : Option String) (parameters locals : List String) :
    FlowGraph :=
  let index := fg.functions.length
  let entry := fg.nextBlock
  { fg with
    graph := fg.graph.insertVertex entry ⟨entry, index, []⟩
    functions := fg.functions ++ [⟨index, name, parameters, locals, entry⟩]
    nextBlock := entry + 1 }

/-- The flow graph with an empty program body. -/
def initial : FlowGraph :=
  pushFunction ⟨.empty, [], ∅, 0⟩ none [] []

instance : Inhabited FlowGraph := ⟨initial⟩

/-- Add a named function and its entry block. The result has the index of the function. -/
def addFunction (fg : FlowGraph) (name : String) (parameters locals : List String) :
    Nat × FlowGraph :=
  (fg.functions.length, fg.pushFunction (some name) parameters locals)

/-- Add an empty block to a function. The result has the number of the block. -/
def newBlock (fg : FlowGraph) (function : Nat) : Except Error (Nat × FlowGraph) :=
  if fg.functions.length ≤ function then .error (.functionNotFound function)
  else
    let index := fg.nextBlock
    .ok (index, { fg with
      graph := fg.graph.insertVertex index ⟨index, function, []⟩
      nextBlock := index + 1 })

/-- Add a node at the end of a block. The result has the number of the node. -/
def addNode (fg : FlowGraph) (block : Nat) (operation : Operation) :
    Except Error (Nat × FlowGraph) :=
  let index := fg.nodeBlocks.size
  let push (b : Block) : Block := { b with nodes := b.nodes ++ [⟨index, block, operation⟩] }
  match fg.graph.updateVertex block push with
  | .error _ => .error (.blockNotFound block)
  | .ok graph => .ok (index, { fg with graph, nodeBlocks := fg.nodeBlocks.insert index block })

/-- Join two blocks by an edge. -/
def addEdge (fg : FlowGraph) (head tail : Nat) : Except Error FlowGraph := do
  return { fg with graph := ← fg.graph.insertEdge ⟨head, tail⟩ }

/-- The program body. -/
def main (fg : FlowGraph) : Except Error Function :=
  match fg.functions.head? with
  | some f => .ok f
  | none => .error (.invariant .noProgramBody)

/-- The function of an index. -/
def function (fg : FlowGraph) (index : Nat) : Except Error Function :=
  match fg.functions[index]? with
  | some f => .ok f
  | none => .error (.functionNotFound index)

/-- The block of a number. -/
def block (fg : FlowGraph) (index : Nat) : Except Error Block :=
  match fg.graph.vertices.get? index with
  | some b => .ok b
  | none => .error (.blockNotFound index)

/-- Every block, in order. -/
def blocks (fg : FlowGraph) : List Block :=
  fg.graph.vertices.values

/-- The function that a block belongs to. -/
def functionOfBlock (fg : FlowGraph) (block : Nat) : Except Error Function := do
  fg.function (← fg.block block).function

/-- The node of a number. -/
def node (fg : FlowGraph) (index : Nat) : Except Error Node :=
  match fg.nodeBlocks.get? index with
  | none => .error (.nodeNotFound index)
  | some block => do
    match (← fg.block block).nodes.find? fun node => node.index == index with
    | some node => .ok node
    | none => .error (.nodeNotFound index)

/-- The successors of a block, in order. -/
def successors (fg : FlowGraph) (block : Nat) : Except Error (List Nat) :=
  match fg.graph.successors.get? block with
  | some set => .ok set.toList
  | none => .error (.blockNotFound block)

/-- The only successor of a block. -/
def singleSuccessor (fg : FlowGraph) (block : Nat) : Except Error Nat := do
  match ← fg.successors block with
  | [successor] => .ok successor
  | successors => .error (.invariant (.notOneSuccessor block successors.length))

/-- Every marker, in the order of the nodes. -/
def markers (fg : FlowGraph) : List Node :=
  let markers := (fg.blocks.flatMap Block.nodes).filter fun node => node.kind = .foreignMarker
  markers.mergeSort fun a b => a.index ≤ b.index

/-- Whether there is a program body and every block is well formed. -/
def check (fg : FlowGraph) : Except Error Unit := do
  let _ ← fg.main
  fg.blocks.forM fun block => do
    block.check (← fg.successors block.index).length

/-- The flow graph in the language of a drawing tool. -/
def drawing (fg : FlowGraph) : String :=
  fg.graph.drawing

/-- The listing of a flow graph: the blocks of each function under its name. -/
def text (fg : FlowGraph) : String :=
  String.join (fg.functions.map fun f =>
    "function " ++ f.title ++ "\n"
      ++ String.join ((fg.blocks.filter fun block => block.function == f.index).map Block.text))

/-- The data of a flow graph. -/
def schema : Schema :=
  .record [("graph", Digraph.schema Block.schema), ("functions", .list Function.schema),
    ("node_blocks", .map .word .word), ("next_block", .word)]

/-- A flow graph as data. -/
def toDatum (fg : FlowGraph) : Datum :=
  .record
    [("graph", fg.graph.toDatum Block.toDatum),
      ("functions", .ofList Function.toDatum fg.functions),
      ("node_blocks", .ofEntries .word .word fg.nodeBlocks.toList),
      ("next_block", .word fg.nextBlock)]

/-- The flow graph of data. -/
def ofDatum? : Datum → Option FlowGraph
  | .record [(_, graph), (_, functions), (_, nodeBlocks), (_, nextBlock)] => do
    return ⟨← Digraph.ofDatum? Block.ofDatum? graph, ← functions.list? Function.ofDatum?,
      .ofList (← nodeBlocks.entries? Datum.word? Datum.word?), ← nextBlock.word?⟩
  | _ => none

/-- The text of a flow graph in a format. -/
def write (format : Format) (fg : FlowGraph) : Except Error String :=
  match format.write? fg.toDatum with
  | some text => .ok text
  | none => .error .json

/-- Read a flow graph from a text in a format. -/
def read (format : Format) (text : String) : Except Error FlowGraph :=
  match (format.read? schema text).bind ofDatum? with
  | some fg => .ok fg
  | none => .error .json

/-- Read a flow graph from JSON text. -/
def ofText (s : String) : Except Error FlowGraph :=
  read Json.format s

end FlowGraph

end ScriptHeap
