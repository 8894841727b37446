import ScriptHeap.Proofs.Analysis.Coverage

/-!
# Building a flow graph

A call of the builder is here a program that works on the flow graph step by step: it checks, takes
numbers and writes (`BuilderCall.inPlace`). A step that has been made stays made when a later one
fails. All checks come before the first write, so a call ends with the answer and the flow graph of
the call that is made at once, and where it fails the flow graph is as it was
(`BuilderCall.run_inPlace`).

The parts of a flow graph repeat what others say: nodes carry their blocks, blocks their functions,
functions their entries, and successors repeat the edges. After any calls, whether they fail or not,
these agree (`BuilderCall.wellBuilt_runAll`).
-/

namespace ScriptHeap

/-! ### Calls -/

/-- A call of the builder. -/
inductive BuilderCall where
  | addFunction (name : String) (parameters locals : List String)
  | newBlock (function : Nat)
  | addNode (block : Nat) (operation : Operation)
  | addEdge (head tail : Nat)

/-- A program that works on a flow graph in place. -/
abbrev Building := ExceptT Error (StateM FlowGraph)

namespace Building

/-- Change the blocks or the edges. -/
def changeGraph (f : Digraph Block → Digraph Block) : Building Unit :=
  modify fun fg => { fg with graph := f fg.graph }

/-- Take the next block number, and put an empty block there. -/
def openBlock (function : Nat) : Building Nat := do
  let index := (← get).nextBlock
  modify fun fg => { fg with nextBlock := index + 1 }
  changeGraph fun g => g.insertVertex index ⟨index, function, []⟩
  return index

/-- Go on only if there is such a vertex. -/
def requireVertex (index : Nat) : Building Unit := do
  if !(← get).graph.hasVertex index then throw (.vertexNotFound index)

/-- Put a node at the end of a block. -/
def pushNode (node : Node) : Building Unit := do
  match (← get).graph.vertices.get? node.block with
  | none => throw (.blockNotFound node.block)
  | some block =>
    let block := { block with nodes := block.nodes ++ [node] }
    changeGraph fun g => { g with vertices := g.vertices.insert node.block block }

theorem run_get (fg : FlowGraph) : (get : Building FlowGraph).run.run fg = (.ok fg, fg) := rfl

end Building

namespace BuilderCall

open Building Fallible

/-- Make the call at once. The answer is the number of what was added, if it has one. -/
def apply : BuilderCall → FlowGraph → Except Error (Option Nat × FlowGraph)
  | .addFunction name parameters locals, fg =>
    let added := fg.addFunction name parameters locals
    .ok (some added.1, added.2)
  | .newBlock function, fg => do
    let added ← fg.newBlock function
    return (some added.1, added.2)
  | .addNode block operation, fg => do
    let added ← fg.addNode block operation
    return (some added.1, added.2)
  | .addEdge head tail, fg => return (none, ← fg.addEdge head tail)

/-- Make the call step by step. -/
def inPlace : BuilderCall → Building (Option Nat)
  | .addFunction name parameters locals => do
    let index := (← get).functions.length
    let entry ← openBlock index
    modify fun fg =>
      { fg with functions := fg.functions ++ [⟨index, some name, parameters, locals, entry⟩] }
    return some index
  | .newBlock function => do
    if (← get).functions.length ≤ function then throw (.functionNotFound function)
    return some (← openBlock function)
  | .addNode block operation => do
    let index := (← get).nodeBlocks.size
    pushNode ⟨index, block, operation⟩
    modify fun fg => { fg with nodeBlocks := fg.nodeBlocks.insert index block }
    return some index
  | .addEdge head tail => do
    requireVertex head
    requireVertex tail
    changeGraph fun g =>
      { g with
        successors := g.successors.insert head (((g.successors.get? head).getD ∅).insert tail) }
    changeGraph fun g => { g with edges := g.edges.insert ⟨head, tail⟩ }
    return none

/-- Make calls one after the other, whether they fail or not. -/
def runAll (calls : List BuilderCall) : StateM FlowGraph (List (Except Error (Option Nat))) :=
  calls.mapM fun call => call.inPlace.run

/-- How a call ends that is made as a whole or not at all. -/
def settle (fg : FlowGraph) :
    Except Error (Option Nat × FlowGraph) → Except Error (Option Nat) × FlowGraph
  | .ok (answer, changed) => (.ok answer, changed)
  | .error e => (.error e, fg)

theorem run_requireVertex (index : Nat) (fg : FlowGraph) :
    (requireVertex index).run.run fg =
      (if fg.graph.hasVertex index then .ok () else .error (.vertexNotFound index), fg) := by
  refine (run_bind_of_ok _ (run_get fg)).trans ?_
  cases fg.graph.hasVertex index <;> rfl

theorem run_newBlock (function : Nat) (fg : FlowGraph) :
    (newBlock function).inPlace.run.run fg = settle fg ((newBlock function).apply fg) := by
  refine (run_bind_of_ok _ (run_get fg)).trans ?_
  by_cases missing : fg.functions.length ≤ function
  · simp only [apply, FlowGraph.newBlock, if_pos missing]
    rfl
  · simp only [apply, FlowGraph.newBlock, if_neg missing]
    rfl

theorem run_addNode (block : Nat) (operation : Operation) (fg : FlowGraph) :
    (addNode block operation).inPlace.run.run fg =
      settle fg ((addNode block operation).apply fg) := by
  refine (run_bind_of_ok _ (run_get fg)).trans ?_
  simp only [apply, FlowGraph.addNode, Digraph.updateVertex]
  -- The node is pushed on what the block holds at that time.
  refine (run_bind ..).trans ?_
  rw [show (pushNode ⟨fg.nodeBlocks.size, block, operation⟩).run.run fg = _ from
    run_bind_of_ok _ (run_get fg)]
  cases fg.graph.vertices.get? block <;> rfl

theorem run_addEdge (head tail : Nat) (fg : FlowGraph) :
    (addEdge head tail).inPlace.run.run fg = settle fg ((addEdge head tail).apply fg) := by
  refine (run_bind ..).trans ?_
  rw [run_requireVertex]
  simp only [apply, FlowGraph.addEdge, Digraph.insertEdge]
  cases fg.graph.hasVertex head with
  | false => rfl
  | true =>
      refine (run_bind ..).trans ?_
      rw [run_requireVertex]
      cases fg.graph.hasVertex tail <;> rfl

/-- A call in place does what the call does that is made at once, or nothing. -/
theorem run_inPlace (call : BuilderCall) (fg : FlowGraph) :
    call.inPlace.run.run fg = settle fg (call.apply fg) := by
  cases call with
  | addFunction => rfl
  | newBlock function => exact run_newBlock function fg
  | addNode block operation => exact run_addNode block operation fg
  | addEdge head tail => exact run_addEdge head tail fg

end BuilderCall

/-! ### What the steps keep -/

namespace FlowGraph

variable {fg fg' : FlowGraph} {function block index head tail : Nat} {operation : Operation}

/-- Blocks have numbers below the next one and belong to functions, and functions stand under their
    indices and own their entries. -/
structure Owned (fg : FlowGraph) : Prop where
  blocks : ∀ b block, fg.graph.vertices.get? b = some block →
    b < fg.nextBlock ∧ block.function < fg.functions.length
  functions : ∀ i f, fg.functions[i]? = some f →
    f.index = i ∧ ∃ entry, fg.graph.vertices.get? f.entry = some entry ∧ entry.function = i

namespace Owned

/-- Old blocks stay where they are when a block is opened under the next number. -/
theorem get?_open (owned : fg.Owned) {b : Nat} {old new : Block}
    (found : fg.graph.vertices.get? b = some old) :
    (fg.graph.vertices.insert fg.nextBlock new).get? b = some old := by
  rw [FinMap.get?_insert_of_ne _ (Nat.ne_of_lt (owned.blocks b old found).1)]
  exact found

theorem fresh (owned : fg.Owned) : fg.graph.vertices.get? fg.nextBlock = none := by
  cases held : fg.graph.vertices.get? fg.nextBlock with
  | none => rfl
  | some block => exact absurd (owned.blocks _ block held).1 (Nat.lt_irrefl _)

theorem pushFunction (owned : fg.Owned) (name : Option String) (parameters locals : List String) :
    (fg.pushFunction name parameters locals).Owned where
  blocks b block found := by
    have opened : (fg.graph.vertices.insert fg.nextBlock
      ⟨fg.nextBlock, fg.functions.length, []⟩).get? b = some block := found
    rw [FinMap.get?_insert] at opened
    by_cases new : b = fg.nextBlock
    · rw [if_pos new] at opened
      cases opened
      simp [FlowGraph.pushFunction, new]
    · rw [if_neg new] at opened
      obtain ⟨below, function⟩ := owned.blocks b block opened
      simp only [FlowGraph.pushFunction, List.length_append, List.length_singleton]
      omega
  functions i f found := by
    have listed : (fg.functions ++
      [⟨fg.functions.length, name, parameters, locals, fg.nextBlock⟩])[i]? = some f := found
    rcases Nat.lt_or_ge i fg.functions.length with old | new
    · rw [List.getElem?_append_left old] at listed
      obtain ⟨index, entry, held, function⟩ := owned.functions i f listed
      exact ⟨index, entry, owned.get?_open held, function⟩
    · obtain rfl : fg.functions.length = i := by
        have bound := (List.getElem?_eq_some_iff.mp listed).1
        rw [List.length_append, List.length_singleton] at bound
        omega
      rw [List.getElem?_concat_length] at listed
      cases listed
      exact ⟨rfl, _, FinMap.get?_insert_self .., rfl⟩

theorem newBlock (owned : fg.Owned) (added : fg.newBlock function = .ok (index, fg')) :
    fg'.Owned := by
  obtain ⟨present, rfl⟩ := eq_of_newBlock added
  refine ⟨fun b block found => ?_, fun i f found => ?_⟩
  · have opened : (fg.graph.vertices.insert fg.nextBlock
      ⟨fg.nextBlock, function, []⟩).get? b = some block := found
    rw [FinMap.get?_insert] at opened
    by_cases new : b = fg.nextBlock
    · rw [if_pos new] at opened
      cases opened
      exact ⟨by simp [new], present⟩
    · rw [if_neg new] at opened
      exact (owned.blocks b block opened).imp_left Nat.lt_succ_of_lt
  · obtain ⟨index, entry, held, function⟩ := owned.functions i f found
    exact ⟨index, entry, owned.get?_open held, function⟩

theorem addNode (owned : fg.Owned) (added : fg.addNode block operation = .ok (index, fg')) :
    fg'.Owned := by
  obtain ⟨old, held, rfl⟩ := eq_of_addNode added
  refine ⟨fun b changed found => ?_, fun i f found => ?_⟩
  · rw [FinMap.get?_insert] at found
    by_cases same : b = block
    · rw [if_pos same] at found
      cases found
      exact same ▸ owned.blocks block old held
    · rw [if_neg same] at found
      exact owned.blocks b changed found
  · obtain ⟨index, entry, entered, function⟩ := owned.functions i f found
    refine ⟨index, ?_⟩
    rw [FinMap.get?_insert]
    by_cases same : f.entry = block
    · rw [same, held] at entered
      cases entered
      exact ⟨_, if_pos same, function⟩
    · exact ⟨entry, (if_neg same).trans entered, function⟩

end Owned

theorem Assembled.owned (assembled : fg.Assembled) : fg.Owned := by
  induction assembled with
  | initial =>
      have none : (⟨.empty, [], ∅, 0⟩ : FlowGraph).Owned := ⟨nofun, nofun⟩
      exact none.pushFunction _ _ _
  | addFunction name parameters locals _ ih => exact ih.pushFunction _ _ _
  | newBlock _ added ih => exact ih.newBlock added
  | addNode _ added ih => exact ih.addNode added
  | addEdge _ added ih =>
      obtain ⟨_, _, rfl⟩ := eq_of_addEdge added
      exact ⟨ih.blocks, ih.functions⟩

/-- Edges join blocks, and the blocks are what has a set of successors. -/
structure Joined (fg : FlowGraph) : Prop where
  edges : ∀ edge ∈ fg.graph.edges,
    fg.graph.hasVertex edge.head = true ∧ fg.graph.hasVertex edge.tail = true
  successors : ∀ b, (fg.graph.successors.get? b).isSome = true ↔ fg.graph.hasVertex b = true

namespace Joined

theorem insertVertex (joined : fg.Joined) {new : Block}
    (inserted : fg'.graph = fg.graph.insertVertex index new) : fg'.Joined := by
  refine ⟨fun edge member => ?_, fun b => ?_⟩
  · rw [inserted] at member ⊢
    exact (joined.edges edge member).imp (Digraph.hasVertex_insertVertex new)
      (Digraph.hasVertex_insertVertex new)
  · rw [inserted]
    simp only [Digraph.insertVertex, Digraph.hasVertex, FinMap.contains, FinMap.get?_insert]
    by_cases same : b = index
    · simp only [if_pos same, Option.isSome_some]
    · simp only [if_neg same]
      exact joined.successors b

theorem addNode (joined : fg.Joined) (added : fg.addNode block operation = .ok (index, fg')) :
    fg'.Joined := by
  obtain ⟨old, held, rfl⟩ := eq_of_addNode added
  refine ⟨fun edge member => ?_, fun b => (joined.successors b).trans ?_⟩
  · exact (joined.edges edge member).imp FinMap.contains_insert_of_contains
      FinMap.contains_insert_of_contains
  · simp only [Digraph.hasVertex, FinMap.contains, FinMap.get?_insert]
    by_cases same : b = block
    · simp [same, held]
    · simp only [if_neg same]

theorem addEdge (joined : fg.Joined) (added : fg.addEdge head tail = .ok fg') : fg'.Joined := by
  obtain ⟨first, second, rfl⟩ := eq_of_addEdge added
  refine ⟨fun edge member => ?_, fun b => ?_⟩
  · rcases FinSet.mem_insert.mp member with rfl | old
    · exact ⟨first, second⟩
    · exact joined.edges edge old
  · rw [FinMap.get?_insert]
    by_cases same : b = head
    · rw [if_pos same, same]
      exact ⟨fun _ => first, fun _ => rfl⟩
    · rw [if_neg same]
      exact joined.successors b

end Joined

theorem Assembled.joined (assembled : fg.Assembled) : fg.Joined := by
  induction assembled with
  | initial =>
      have none : (⟨.empty, [], ∅, 0⟩ : FlowGraph).Joined := ⟨nofun, fun b => ⟨nofun, nofun⟩⟩
      exact none.insertVertex rfl
  | addFunction _ _ _ _ ih => exact ih.insertVertex rfl
  | newBlock _ added ih =>
      obtain ⟨_, rfl⟩ := eq_of_newBlock added
      exact ih.insertVertex rfl
  | addNode _ added ih => exact ih.addNode added
  | addEdge _ added ih => exact ih.addEdge added

/-- Nodes are numbered in the order in which they come, and their blocks are on record. -/
structure Counted (fg : FlowGraph) : Prop where
  numbers : ∀ i, (fg.nodeBlocks.get? i).isSome = true ↔ i < fg.nodeBlocks.size
  recorded : ∀ b block, fg.graph.vertices.get? b = some block →
    ∀ node ∈ block.nodes, fg.nodeBlocks.get? node.index = some b
  held : ∀ i b, fg.nodeBlocks.get? i = some b →
    ∃ block, fg.graph.vertices.get? b = some block ∧ ∃ node ∈ block.nodes, node.index = i
  increasing : ∀ b block, fg.graph.vertices.get? b = some block →
    block.nodes.Pairwise fun earlier later => earlier.index < later.index

namespace Counted

/-- A new block has no nodes. -/
theorem insertVertex (counted : fg.Counted) (fresh : fg.graph.vertices.get? index = none)
    (inserted : fg'.graph = fg.graph.insertVertex index ⟨index, function, []⟩)
    (records : fg'.nodeBlocks = fg.nodeBlocks) : fg'.Counted := by
  have look : ∀ b, fg'.graph.vertices.get? b =
      if b = index then some ⟨index, function, []⟩ else fg.graph.vertices.get? b := by
    intro b
    rw [inserted]
    exact FinMap.get?_insert ..
  refine ⟨by rw [records]; exact counted.numbers, fun b block found node member => ?_,
    fun i b found => ?_, fun b block found => ?_⟩
  · rw [look] at found
    by_cases same : b = index
    · rw [if_pos same] at found
      cases found
      cases member
    · rw [if_neg same] at found
      rw [records]
      exact counted.recorded b block found node member
  · rw [records] at found
    obtain ⟨block, held, node⟩ := counted.held i b found
    have distinct : b ≠ index := by
      rintro rfl
      rw [fresh] at held
      cases held
    exact ⟨block, by rw [look, if_neg distinct, held], node⟩
  · rw [look] at found
    by_cases same : b = index
    · rw [if_pos same] at found
      cases found
      exact .nil
    · rw [if_neg same] at found
      exact counted.increasing b block found

/-- The numbers of the nodes that are there are below their number. -/
theorem index_lt (counted : fg.Counted) {old : Block}
    (found : fg.graph.vertices.get? block = some old) {node : Node} (member : node ∈ old.nodes) :
    node.index < fg.nodeBlocks.size := by
  apply (counted.numbers node.index).mp
  rw [counted.recorded block old found node member]
  rfl

theorem addNode (counted : fg.Counted) (added : fg.addNode block operation = .ok (index, fg')) :
    fg'.Counted := by
  obtain ⟨old, held, rfl⟩ := eq_of_addNode added
  have missing : fg.nodeBlocks.get? fg.nodeBlocks.size = none := by
    rw [← Option.not_isSome_iff_eq_none, counted.numbers]
    exact Nat.lt_irrefl _
  have size : (fg.nodeBlocks.insert fg.nodeBlocks.size block).size = fg.nodeBlocks.size + 1 :=
    Assoc.length_insert_of_missing missing
  have grown : ∀ i b, fg.nodeBlocks.get? i = some b →
      (fg.nodeBlocks.insert fg.nodeBlocks.size block).get? i = some b := by
    intro i b found
    rw [FinMap.get?_insert_of_ne, found]
    rintro rfl
    rw [missing] at found
    cases found
  refine ⟨fun i => ?_, fun b changed found node member => ?_, fun i b found => ?_,
    fun b changed found => ?_⟩
  · rw [size, Nat.lt_succ_iff_lt_or_eq, ← counted.numbers, FinMap.get?_insert]
    by_cases same : i = fg.nodeBlocks.size <;> simp [same]
  · rw [FinMap.get?_insert] at found
    by_cases same : b = block
    · rw [if_pos same] at found
      cases found
      rcases List.mem_append.mp member with former | new
      · exact grown _ _ (same ▸ counted.recorded block old held node former)
      · rw [List.mem_singleton.mp new, same]
        exact FinMap.get?_insert_self ..
    · rw [if_neg same] at found
      exact grown _ _ (counted.recorded b changed found node member)
  · rw [FinMap.get?_insert] at found
    by_cases last : i = fg.nodeBlocks.size
    · rw [if_pos last] at found
      cases found
      exact ⟨_, FinMap.get?_insert_self .., _, List.mem_append_right _ (List.mem_singleton.mpr rfl),
        last.symm⟩
    · rw [if_neg last] at found
      obtain ⟨former, present, node, member, number⟩ := counted.held i b found
      by_cases same : b = block
      · rw [same, held] at present
        cases present
        rw [same]
        exact ⟨_, FinMap.get?_insert_self .., node, List.mem_append_left _ member, number⟩
      · exact ⟨former, by rw [FinMap.get?_insert_of_ne _ same, present], node, member, number⟩
  · rw [FinMap.get?_insert] at found
    by_cases same : b = block
    · rw [if_pos same] at found
      cases found
      refine List.pairwise_append.mpr ⟨counted.increasing block old held,
        List.pairwise_singleton .., ?_⟩
      intro node former new single
      rw [List.mem_singleton.mp single]
      exact counted.index_lt held former
    · rw [if_neg same] at found
      exact counted.increasing b changed found

end Counted

theorem Assembled.counted (assembled : fg.Assembled) : fg.Counted := by
  induction assembled with
  | initial =>
      have none : (⟨.empty, [], ∅, 0⟩ : FlowGraph).Counted :=
        ⟨fun i => ⟨nofun, nofun⟩, nofun, nofun, nofun⟩
      exact none.insertVertex rfl rfl rfl
  | addFunction _ _ _ before ih => exact ih.insertVertex before.owned.fresh rfl rfl
  | newBlock before added ih =>
      obtain ⟨_, rfl⟩ := eq_of_newBlock added
      exact ih.insertVertex before.owned.fresh rfl rfl
  | addNode _ added ih => exact ih.addNode added
  | addEdge _ added ih =>
      obtain ⟨_, _, rfl⟩ := eq_of_addEdge added
      exact ⟨ih.numbers, ih.recorded, ih.held, ih.increasing⟩

/-! ### Queries -/

/-- The block has a node of that number. -/
def HoldsNode (fg : FlowGraph) (b number : Nat) : Prop :=
  ∃ block, fg.block b = .ok block ∧ ∃ node ∈ block.nodes, node.index = number

/-- What the queries say about each other. -/
structure WellBuilt (fg : FlowGraph) : Prop where
  /-- Nodes have the numbers below their number, each in one block. -/
  numbers : ∀ b number, fg.HoldsNode b number → number < fg.nodeBlocks.size
  homes : ∀ number < fg.nodeBlocks.size, ∃! b, fg.HoldsNode b number
  nodes : ∀ number < fg.nodeBlocks.size, ∃ node, fg.node number = .ok node ∧
    node.index = number ∧ ∃ block, fg.block node.block = .ok block ∧ node ∈ block.nodes
  increasing : ∀ b block, fg.block b = .ok block →
    block.nodes.Pairwise fun earlier later => earlier.index < later.index
  /-- Functions stand under their indices, and own their entries alone. -/
  functions : ∀ i f, fg.function i = .ok f → f.index = i ∧ fg.functionOfBlock f.entry = .ok f ∧
    ∀ j g, fg.function j = .ok g → g.entry = f.entry → j = i
  blocks : ∀ b block, fg.block b = .ok block → ∃ f, fg.function block.function = .ok f
  edges : ∀ edge ∈ fg.graph.edges,
    (∃ block, fg.block edge.head = .ok block) ∧ ∃ block, fg.block edge.tail = .ok block
  /-- Successors are the tails of the edges, in increasing order. -/
  successors : ∀ b block, fg.block b = .ok block → ∃ tails, fg.successors b = .ok tails ∧
    tails.Pairwise (· < ·) ∧ ∀ tail, tail ∈ tails ↔ ⟨b, tail⟩ ∈ fg.graph.edges

theorem block_eq_ok_iff {b : Nat} {held : Block} :
    fg.block b = .ok held ↔ fg.graph.vertices.get? b = some held := by
  refine ⟨get?_of_block, fun found => ?_⟩
  rw [FlowGraph.block, found]

theorem function_eq_ok_iff {i : Nat} {f : Function} :
    fg.function i = .ok f ↔ fg.functions[i]? = some f := by
  cases found : fg.functions[i]? <;> simp [FlowGraph.function, found]

theorem exists_block_iff {b : Nat} :
    (∃ held, fg.block b = .ok held) ↔ fg.graph.hasVertex b = true := by
  simp only [block_eq_ok_iff, Digraph.hasVertex, FinMap.contains_eq_true_iff]

theorem Counted.holdsNode_iff (counted : fg.Counted) {b number : Nat} :
    fg.HoldsNode b number ↔ fg.nodeBlocks.get? number = some b := by
  constructor
  · rintro ⟨block, held, node, member, rfl⟩
    exact counted.recorded b block (get?_of_block held) node member
  · intro found
    obtain ⟨block, held, node⟩ := counted.held number b found
    exact ⟨block, block_eq_ok_iff.mpr held, node⟩

/-- The node of a number is found in its block. -/
theorem Counted.node_eq_ok (counted : fg.Counted) {b number : Nat}
    (recorded : fg.nodeBlocks.get? number = some b) :
    ∃ block node, fg.block b = .ok block ∧ node ∈ block.nodes ∧ node.index = number ∧
      fg.node number = .ok node := by
  obtain ⟨block, held, node, member, numbered⟩ := counted.held number b recorded
  have found := block_eq_ok_iff.mpr held
  cases first : block.nodes.find? fun node => node.index == number with
  | none =>
      have other := List.find?_eq_none.mp first node member
      exact absurd (beq_iff_eq.mpr numbered) other
  | some other =>
      have same : (other.index == number) = true :=
        List.find?_some (p := fun node : Node => node.index == number) first
      refine ⟨block, other, found, List.mem_of_find?_eq_some first, beq_iff_eq.mp same, ?_⟩
      simp only [FlowGraph.node, recorded, found, bind, Except.bind, first]

theorem Assembled.wellBuilt (assembled : fg.Assembled) : fg.WellBuilt := by
  have counted := assembled.counted
  have owned := assembled.owned
  have numbered := assembled.numbered
  have joined := assembled.joined
  refine ⟨fun b number holds => ?_, fun number below => ?_, fun number below => ?_,
    fun b block held => counted.increasing b block (get?_of_block held), fun i f found => ?_,
    fun b block held => ?_, fun edge member => ?_, fun b block held => ?_⟩
  · rw [← counted.numbers, counted.holdsNode_iff.mp holds]
    rfl
  · obtain ⟨b, recorded⟩ := Option.isSome_iff_exists.mp ((counted.numbers number).mpr below)
    refine ⟨b, counted.holdsNode_iff.mpr recorded, fun other holds => ?_⟩
    have again := counted.holdsNode_iff.mp holds
    rw [recorded] at again
    exact (Option.some.inj again).symm
  · obtain ⟨b, recorded⟩ := Option.isSome_iff_exists.mp ((counted.numbers number).mpr below)
    obtain ⟨block, node, held, member, number, found⟩ := counted.node_eq_ok recorded
    have home := (numbered b block (get?_of_block held)).2 node member
    exact ⟨node, found, number, block, home ▸ held, member⟩
  · obtain ⟨index, entry, held, function⟩ := owned.functions i f (function_eq_ok_iff.mp found)
    refine ⟨index, ?_, fun j g listed same => ?_⟩
    · rw [functionOfBlock, block_eq_ok_iff.mpr held]
      show fg.function entry.function = .ok f
      rw [function, found]
    · obtain ⟨_, other, held', function'⟩ := owned.functions j g (function_eq_ok_iff.mp listed)
      rw [same, held] at held'
      cases held'
      exact function'.symm.trans function
  · have bound := (owned.blocks b block (get?_of_block held)).2
    exact ⟨_, function_eq_ok_iff.mpr (List.getElem?_eq_getElem bound)⟩
  · simpa only [exists_block_iff] using joined.edges edge member
  · obtain ⟨set, found⟩ := Option.isSome_iff_exists.mp
      ((joined.successors b).mpr (exists_block_iff.mp ⟨block, held⟩))
    refine ⟨set.toList, by rw [FlowGraph.successors, found], ?_, fun tail => ?_⟩
    · exact set.pairwise_toList.imp Nat.compare_eq_lt.mp
    · rw [← assembled.alongEdges, leads_iff, found]
      exact FinSet.mem_toList

end FlowGraph

namespace BuilderCall

/-- A call that succeeds is a step of the assembly. -/
theorem assembled_apply {call : BuilderCall} {fg fg' : FlowGraph} {answer : Option Nat}
    (assembled : fg.Assembled) (done : call.apply fg = .ok (answer, fg')) : fg'.Assembled := by
  cases call with
  | addFunction name parameters locals =>
      cases done
      exact .addFunction name parameters locals assembled
  | newBlock function =>
      obtain ⟨r, added, same⟩ := of_bind_eq_ok done
      cases same
      exact .newBlock assembled added
  | addNode block operation =>
      obtain ⟨r, added, same⟩ := of_bind_eq_ok done
      cases same
      exact .addNode assembled added
  | addEdge head tail =>
      obtain ⟨r, added, same⟩ := of_bind_eq_ok done
      cases same
      exact .addEdge assembled added

theorem assembled_settle {call : BuilderCall} {fg : FlowGraph} (assembled : fg.Assembled) :
    (settle fg (call.apply fg)).2.Assembled := by
  rcases done : call.apply fg with e | ⟨answer, fg'⟩
  · exact assembled
  · exact assembled_apply assembled done

/-- After any calls, whether they fail or not, the flow graph is assembled. -/
theorem assembled_runAll (calls : List BuilderCall) {fg : FlowGraph} (assembled : fg.Assembled) :
    ((runAll calls).run fg).2.Assembled := by
  induction calls generalizing fg with
  | nil => exact assembled
  | cons call rest ih =>
      have first : (call.inPlace.run.run fg).2.Assembled := by
        rw [run_inPlace]
        exact assembled_settle assembled
      have later := ih first
      unfold runAll at later ⊢
      rw [List.mapM_cons]
      exact later

/-- After any calls on the empty program, whether they fail or not, the queries of the flow graph
    agree with each other; and a call that fails leaves any flow graph as it was. -/
theorem wellBuilt_runAll (calls : List BuilderCall) :
    ((runAll calls).run .initial).2.WellBuilt ∧
      ∀ (call : BuilderCall) (fg : FlowGraph) (e : Error),
        (call.inPlace.run.run fg).1 = .error e → (call.inPlace.run.run fg).2 = fg := by
  refine ⟨(assembled_runAll calls .initial).wellBuilt, fun call fg e failed => ?_⟩
  rw [run_inPlace] at failed ⊢
  rcases done : call.apply fg with e | ⟨answer, fg'⟩
  · rfl
  · rw [done] at failed
    cases failed

/-- Calls of every kind, and of every kind but the first one that fails. -/
def mixedCalls : List BuilderCall :=
  [.newBlock 0, .addFunction "f" ["a"] [], .addNode 2 (.newObject 0), .newBlock 2, .addNode 1 .nop,
    .addNode 3 .nop, .addNode 2 .nop, .addEdge 0 1, .addEdge 1 3, .addEdge 0 0, .addEdge 0 1]

theorem mixedCalls_wellBuilt :
    ((runAll mixedCalls).run .initial).1 =
      [.ok (some 1), .ok (some 1), .ok (some 0), .error (.functionNotFound 2), .ok (some 1),
        .error (.blockNotFound 3), .ok (some 2), .ok none, .error (.vertexNotFound 3), .ok none,
        .ok none] ∧
      ((runAll mixedCalls).run .initial).2.WellBuilt ∧
      (addEdge 1 3).inPlace.run.run ((runAll mixedCalls).run .initial).2 =
        (.error (.vertexNotFound 3), ((runAll mixedCalls).run .initial).2) := by
  obtain ⟨built, unchanged⟩ := wellBuilt_runAll mixedCalls
  exact ⟨rfl, built, Prod.ext rfl (unchanged (addEdge 1 3) _ (.vertexNotFound 3) rfl)⟩

end BuilderCall

end ScriptHeap
