import ScriptHeap.Program.FlowGraph
import ScriptHeap.Proofs.Lookup

/-!
# Assembling flow graphs

What each step of the builder asks for and what it leaves, as one equation for the whole flow graph
(`FlowGraph.eq_of_newBlock`, `FlowGraph.eq_of_addNode`, `FlowGraph.eq_of_addEdge`). The invariants
of flow graphs that were assembled step by step follow from these equations. The first of them is
that blocks and nodes know their numbers (`FlowGraph.Assembled.numbered`).
-/

namespace ScriptHeap

/-! ### Graphs -/

namespace Digraph

variable {ν : Type} {g g' : Digraph ν}

/-- An edge joins two vertices, and its second end is then among the successors of the first. -/
theorem eq_of_insertEdge {edge : Edge} (added : g.insertEdge edge = .ok g') :
    g.hasVertex edge.head = true ∧ g.hasVertex edge.tail = true ∧
      g' = { g with
        edges := g.edges.insert edge
        successors :=
          g.successors.insert edge.head ((g.following edge.head).insert edge.tail) } := by
  unfold insertEdge at added
  cases first : g.hasVertex edge.head with
  | false => simp [first] at added
  | true =>
      cases second : g.hasVertex edge.tail with
      | false => simp [first, second] at added
      | true =>
          simp only [first, second, Bool.not_true, Bool.false_eq_true, if_false,
            Except.ok.injEq] at added
          exact ⟨rfl, rfl, added.symm⟩

theorem hasVertex_insertVertex {v index : Nat} (data : ν) (held : g.hasVertex v = true) :
    (g.insertVertex index data).hasVertex v = true :=
  FinMap.contains_insert_of_contains held

end Digraph

/-! ### Flow graphs -/

namespace FlowGraph

/-- Flow graphs that are put together by the four steps. -/
inductive Assembled : FlowGraph → Prop where
  | initial : Assembled .initial
  | addFunction {fg : FlowGraph} (name : String) (parameters locals : List String)
      (before : Assembled fg) : Assembled (fg.addFunction name parameters locals).2
  | newBlock {fg fg' : FlowGraph} {function index : Nat} (before : Assembled fg)
      (added : fg.newBlock function = .ok (index, fg')) : Assembled fg'
  | addNode {fg fg' : FlowGraph} {block index : Nat} {operation : Operation}
      (before : Assembled fg) (added : fg.addNode block operation = .ok (index, fg')) :
      Assembled fg'
  | addEdge {fg fg' : FlowGraph} {head tail : Nat} (before : Assembled fg)
      (added : fg.addEdge head tail = .ok fg') : Assembled fg'

variable {fg fg' : FlowGraph} {function block index head tail : Nat} {operation : Operation}

/-- A block is opened for a function that is there, under the next number and without nodes. -/
theorem eq_of_newBlock (added : fg.newBlock function = .ok (index, fg')) :
    function < fg.functions.length ∧ fg' = { fg with
      graph := fg.graph.insertVertex fg.nextBlock ⟨fg.nextBlock, function, []⟩
      nextBlock := fg.nextBlock + 1 } := by
  by_cases missing : fg.functions.length ≤ function
  · rw [newBlock, if_pos missing] at added
    cases added
  · rw [newBlock, if_neg missing] at added
    cases added
    exact ⟨Nat.lt_of_not_le missing, rfl⟩

/-- A node goes to the end of a block that is there, and its block is recorded. -/
theorem eq_of_addNode (added : fg.addNode block operation = .ok (index, fg')) :
    ∃ old, fg.graph.vertices.get? block = some old ∧ fg' = { fg with
      graph := { fg.graph with
        vertices := fg.graph.vertices.insert block
          { old with nodes := old.nodes ++ [⟨fg.nodeBlocks.size, block, operation⟩] } }
      nodeBlocks := fg.nodeBlocks.insert fg.nodeBlocks.size block } := by
  cases held : fg.graph.vertices.get? block with
  | none =>
      simp only [addNode, Digraph.updateVertex, held] at added
      cases added
  | some old =>
      simp only [addNode, Digraph.updateVertex, held] at added
      cases added
      exact ⟨old, rfl, rfl⟩

/-- An edge joins two blocks that are there, and changes nothing but the graph. -/
theorem eq_of_addEdge (added : fg.addEdge head tail = .ok fg') :
    fg.graph.hasVertex head = true ∧ fg.graph.hasVertex tail = true ∧ fg' = { fg with
      graph := { fg.graph with
        edges := fg.graph.edges.insert ⟨head, tail⟩
        successors := fg.graph.successors.insert head
          ((fg.graph.following head).insert tail) } } := by
  unfold addEdge at added
  cases inserted : fg.graph.insertEdge ⟨head, tail⟩ with
  | error e =>
      rw [inserted] at added
      cases added
  | ok graph =>
      rw [inserted] at added
      cases added
      obtain ⟨first, second, rfl⟩ := Digraph.eq_of_insertEdge inserted
      exact ⟨first, second, rfl⟩

theorem Assembled.foldl {α : Type} {step : FlowGraph → α → FlowGraph}
    (keeps : ∀ fg item, Assembled fg → Assembled (step fg item)) (items : List α)
    (assembled : fg.Assembled) : (items.foldl step fg).Assembled := by
  induction items generalizing fg with
  | nil => exact assembled
  | cons item rest ih => exact ih (keeps fg item assembled)

/-- Every block stands under its number, and its nodes know the number. -/
def Numbered (fg : FlowGraph) : Prop :=
  ∀ index block, fg.graph.vertices.get? index = some block →
    block.index = index ∧ ∀ node ∈ block.nodes, node.block = index

theorem Numbered.insertEmpty (numbered : fg.Numbered) {graph : Digraph Block} (index function : Nat)
    (inserted : graph.vertices = fg.graph.vertices.insert index ⟨index, function, []⟩)
    {index' : Nat} {block : Block} (found : graph.vertices.get? index' = some block) :
    block.index = index' ∧ ∀ node ∈ block.nodes, node.block = index' := by
  rw [inserted, FinMap.get?_insert] at found
  split at found
  · rename_i same
    cases found
    exact ⟨same.symm, nofun⟩
  · exact numbered index' block found

theorem Numbered.addNode (numbered : fg.Numbered)
    (added : fg.addNode block operation = .ok (index, fg')) : fg'.Numbered := by
  obtain ⟨old, held, rfl⟩ := eq_of_addNode added
  intro other b found
  rw [FinMap.get?_insert] at found
  split at found
  · rename_i same
    cases found
    obtain ⟨own, nodes⟩ := numbered block old held
    subst same
    refine ⟨own, fun node member => ?_⟩
    rcases List.mem_append.mp member with former | new
    · exact nodes node former
    · rw [List.mem_singleton.mp new]
  · exact numbered other b found

theorem Assembled.numbered (assembled : fg.Assembled) : fg.Numbered := by
  induction assembled with
  | initial =>
      have none : (⟨.empty, [], ∅, 0⟩ : FlowGraph).Numbered := nofun
      exact fun _ _ => none.insertEmpty 0 0 rfl
  | @addFunction fg name parameters locals _ ih =>
      exact fun _ _ => ih.insertEmpty fg.nextBlock fg.functions.length rfl
  | @newBlock fg fg' function index _ added ih =>
      obtain ⟨_, rfl⟩ := eq_of_newBlock added
      exact fun _ _ => ih.insertEmpty fg.nextBlock function rfl
  | addNode _ added ih => exact ih.addNode added
  | addEdge _ added ih =>
      obtain ⟨_, _, rfl⟩ := eq_of_addEdge added
      exact ih

end FlowGraph

end ScriptHeap
