import ScriptHeap.Proofs.Analysis.Consistency
import ScriptHeap.Proofs.Analysis.Invariants

/-!
# What blocks push

A rule that does not hand on the state pushes nothing, whether it fails or not (`Foreign.Silent`).
Only a call hands on the state, at its very end, and it pushes what it leaves behind
(`Foreign.Delivers`). Since a call comes last in its block, the same holds of blocks: one push where
the block says that the state is handed on, and none otherwise
(`Dispatcher.transferBlock_pushes`).

The push goes to the only successor of the block that the call names as its own. In a flow graph
that was read from data this need not be the block that holds the call
(`Dispatcher.strayCall_pushes_elsewhere`).
-/

namespace ScriptHeap

open Fallible

variable {σ α : Type}

namespace Machine

/-- Exactly these states have been pushed, and the state is in a context. -/
structure Rests (sent : List Push) (c : CallString) (m : Machine σ) : Prop where
  pushes : m.pushes = sent
  context : m.state.context = c

/-- The state is frozen and handed over by one push, to the only successor of the block that the
    node names. -/
def HandsOver (program : FlowGraph) (node : Node) (m m' : Machine σ) : Prop :=
  ∃ target, program.successors node.block = .ok [target] ∧
    m'.pushes = m.pushes ++ [⟨m'.state, ⟨target, m'.state.context⟩⟩] ∧ m'.state.Frozen

end Machine

namespace Foreign

variable {setting : Setting σ} {node : Node}

/-- The transfer pushes nothing and stays in its context, whether it fails or not. -/
abbrev Silent (sent : List Push) (c : CallString) (x : Transfer σ α) (P : α → Prop) : Prop :=
  Fallible.Safe (Machine.Rests sent c) (fun _ => True) x P

/-- How the transfer of a node ends: in its context, with the state handed over by a call if it says
    so, and with no push otherwise. -/
structure Delivery (setting : Setting σ) (node : Node) (m : Machine σ)
    (ended : Except Error Handover × Machine σ) : Prop where
  context : ended.2.state.context = m.state.context
  handed : ended.1 = .ok .done → node.kind = .call ∧ m.HandsOver setting.program node ended.2
  kept : ended.1 ≠ .ok .done → ended.2.pushes = m.pushes

/-- However the transfer ends, it has delivered. -/
def Delivers (setting : Setting σ) (node : Node) (x : Transfer σ Handover) : Prop :=
  ∀ m, Delivery setting node m (x.run.run m)

/-- Nothing is pushed until the end of a call, which pushes the state as it leaves it. -/
theorem parts_rests (sent : List Push) (c : CallString) :
    Parts setting node (Machine.Rests sent c)
      (fun m => m.state.context = c ∧ ∃ target,
        setting.program.successors node.block = .ok [target] ∧
          m.pushes = sent ++ [⟨m.state, ⟨target, m.state.context⟩⟩] ∧ m.state.Frozen)
      (fun _ => True) fun _ => True where
  values := .any node
  answers := .any fun _ _ rests => ⟨rests.pushes, rests.context⟩
  held := fun _ _ => trivial
  missing := fun _ => trivial
  ofHost := fun _ => trivial
  unnamed := fun _ _ _ _ => trivial
  interner := fun _ rests => ⟨rests.pushes, rests.context⟩
  event := fun _ rests => ⟨rests.pushes, rests.context⟩
  write := fun _ _ _ rests => ⟨rests.pushes, rests.context⟩
  definition := fun _ rests => ⟨rests.pushes, rests.context⟩
  newRoot := fun rests => ⟨rests.pushes, rests.context⟩
  newType := fun _ _ _ rests => ⟨rests.pushes, rests.context⟩
  weakWrite := by
    intro m s' labels key v _ _ rests changes
    refine ⟨rests.pushes, ?_⟩
    rw [changes.frame]
    exact rests.context
  variableWrite := fun _ _ rests after =>
    ⟨after.pushes.trans rests.pushes, after.context.trans rests.context⟩
  step := fun _ rests _ after =>
    ⟨after.pushes.trans rests.pushes, after.context.trans rests.context⟩
  push := by
    intro _ m target single rests
    refine ⟨rests.context, target, single, ?_, State.frozen_freezeHeap _⟩
    rw [← rests.pushes]
    rfl
  noPush := fun _ _ _ => trivial

/-- Every rule for host values delivers. -/
theorem delivers_dispatch (node : Node) :
    Delivers setting node ((Dispatcher.base.withLayer layer).dispatch setting node) := by
  intro m
  have parts : Parts setting node _ _ _ _ := parts_rests m.pushes m.state.context
  have ended := parts.dispatch m ⟨rfl, rfl⟩
  generalize ((Dispatcher.base.withLayer layer).dispatch setting node).run.run m = result at ended ⊢
  obtain ⟨e | _ | _, m'⟩ := result
  · have rests := (ended.failed e rfl).1
    exact ⟨rests.context, nofun, fun _ => rests.pushes⟩
  · have rests := ended.pending rfl
    exact ⟨rests.context, nofun, fun _ => rests.pushes⟩
  · obtain ⟨kind, context, handsOver⟩ := ended.done rfl
    exact ⟨context, fun _ => ⟨kind, handsOver⟩, fun other => absurd rfl other⟩

end Foreign

/-! ### Blocks -/

namespace Dispatcher

open Foreign

variable {d : Dispatcher σ} {setting : Setting σ}

/-- The ordinary rules leave the state to the driver. -/
theorem silent_transferNodes_base (block : Nat) (nodes : List Node) (sent : List Push)
    (c : CallString) :
    Silent sent c ((base : Dispatcher σ).transferNodes setting block nodes) (· = .pending) := by
  refine (safe_transferNodes_base ?_ block nodes).mono (fun _ => id) fun _ _ => trivial
  intro node m m' _ rests _ after
  exact ⟨after.pushes.trans rests.pushes, after.context.trans rests.context⟩

/-- A run of nodes in which calls come last ends as its last node does. -/
theorem transferNodes_delivers (step : ∀ node, Delivers setting node (d.dispatch setting node))
    (block : Nat) {nodes : List Node} (calls : ∀ node ∈ nodes.dropLast, node.kind ≠ .call)
    {m m' : Machine σ} {outcome : Except Error Handover}
    (ran : (d.transferNodes setting block nodes).run.run m = (outcome, m')) :
    m'.state.context = m.state.context ∧
      (outcome = .ok .done → ∃ node, nodes.getLast? = some node ∧ node.kind = .call ∧
        m.HandsOver setting.program node m') ∧
      (outcome ≠ .ok .done → m'.pushes = m.pushes) := by
  induction nodes generalizing m with
  | nil =>
      cases ran
      exact ⟨rfl, nofun, fun _ => rfl⟩
  | cons node rest ih =>
      unfold transferNodes at ran
      obtain ⟨context, handed, kept⟩ := step node m
      rcases first : (d.dispatch setting node).run.run m with ⟨e | _ | _, m₁⟩
      · rw [run_bind_of_error _ first] at ran
        rw [first] at context kept
        cases ran
        exact ⟨context, nofun, fun _ => kept nofun⟩
      · -- The state is left to the rest of the block.
        rw [run_bind_of_ok _ first] at ran
        rw [first] at context kept
        have same : m₁.pushes = m.pushes := kept nofun
        have later : ∀ other ∈ rest.dropLast, other.kind ≠ .call := by
          cases rest with
          | nil => exact nofun
          | cons second others => exact fun other member => calls other (.tail _ member)
        obtain ⟨context', handed', kept'⟩ := ih later ran
        refine ⟨context'.trans context, fun done => ?_, fun other => (kept' other).trans same⟩
        obtain ⟨last, found, kind, handsOver⟩ := handed' done
        refine ⟨last, by simp [List.getLast?_cons, found], kind, ?_⟩
        unfold Machine.HandsOver at handsOver ⊢
        rw [← same]
        exact handsOver
      · -- The state has been handed over by a call, and nothing comes after a call.
        rw [run_bind_of_ok _ first] at ran
        rw [first] at context handed
        obtain ⟨kind, handsOver⟩ := handed rfl
        cases rest with
        | nil =>
            cases ran
            exact ⟨context, fun _ => ⟨node, rfl, kind, handsOver⟩, fun other => absurd rfl other⟩
        | cons second others => exact absurd kind (calls node List.mem_cons_self)

/-- A block hands over the state that it ends with by one push if it says so, and pushes nothing if
    the state is left to the driver or the block fails. In a flow graph that was assembled, the call
    that hands over names the block that holds it. -/
theorem transferBlock_pushes {block : Block} {successors : Nat}
    (passed : block.check successors = .ok ()) {m m' : Machine σ}
    {outcome : Except Error Handover}
    (ran : ((base.withLayer layer).transferBlock setting block).run.run m = (outcome, m')) :
    (outcome = .ok .done → ∃ node target, block.nodes.getLast? = some node ∧ node.kind = .call ∧
      setting.program.successors node.block = .ok [target] ∧
      m'.pushes = m.pushes ++ [⟨m'.state, ⟨target, m'.state.context⟩⟩] ∧ m'.state.Frozen ∧
      ∀ index, setting.program.Assembled → setting.program.block index = .ok block →
        node.block = index) ∧
    (outcome ≠ .ok .done → m'.pushes = m.pushes) := by
  obtain ⟨_, handed, kept⟩ :=
    transferNodes_delivers delivers_dispatch block.index (Block.calls_of_check passed) ran
  refine ⟨fun done => ?_, kept⟩
  obtain ⟨node, last, kind, target, single, pushes, frozen⟩ := handed done
  refine ⟨node, target, last, kind, single, pushes, frozen, fun index assembled held => ?_⟩
  have numbered := assembled.numbered index block (FlowGraph.get?_of_block held)
  exact numbered.2 node (List.mem_of_getLast? last)

/-- A machine at the start of a program, with some registers filled. -/
def startWith (registers : List (Register × Value)) : Machine Unit where
  interner := .initial
  host := ()
  events := []
  state := registers.foldl (fun s entry => s.writeRegister entry.1 entry.2)
    (State.initial .initial 0 .main false).1
  pushes := []

/-- A program that asks for a class and goes on in its second block. -/
def classRequest : Setting Unit where
  host := .uniform .anyNumber
  program := .sketch [] 1
    [(0, .readVariable 0 "Java"), (0, .constant 1 (.string "C")),
      (0, .methodCall (some 2) 0 "type" [1])] [(0, 1)]
  options := {}

/-- The first block of the program. -/
def classRequestBlock : Block :=
  ⟨0, 0, [⟨0, 0, .readVariable 0 "Java"⟩, ⟨1, 0, .constant 1 (.string "C")⟩,
    ⟨2, 0, .methodCall (some 2) 0 "type" [1]⟩]⟩

/-- How the first block ends. -/
def classRequestEnd : Except Error Handover × Machine Unit :=
  ((base.withLayer layer).transferBlock classRequest classRequestBlock).run.run (startWith [])

/-- The block hands over its state by one push, to the second block. -/
theorem classRequest_pushes_once :
    classRequestBlock.check 1 = .ok () ∧ classRequest.program.Assembled ∧
      classRequest.program.block 0 = .ok classRequestBlock ∧ classRequestEnd.1 = .ok .done ∧
      classRequestEnd.2.pushes = [⟨classRequestEnd.2.state, ⟨1, .main⟩⟩] ∧
      classRequestEnd.2.state.Frozen := by
  have passed : classRequestBlock.check 1 = .ok () := by decide +kernel
  have assembled : classRequest.program.Assembled := .sketch _ _ _ _
  have held : classRequest.program.block 0 = .ok classRequestBlock := rfl
  have done : classRequestEnd.1 = .ok .done := by decide +kernel
  have context : classRequestEnd.2.state.context = .main := by decide +kernel
  have next : classRequest.program.successors 0 = .ok [1] := by decide +kernel
  have ran : ((base.withLayer layer).transferBlock classRequest classRequestBlock).run.run
    (startWith []) = (classRequestEnd.1, classRequestEnd.2) := rfl
  obtain ⟨node, target, _, _, single, pushes, frozen, home⟩ :=
    (transferBlock_pushes passed ran).1 done
  rw [home 0 assembled held, next] at single
  cases single
  rw [context] at pushes
  exact ⟨passed, assembled, held, done, pushes, frozen⟩

/-- A block that holds a call which names another block as its own. -/
def strayBlock : Block := ⟨0, 0, [⟨0, 1, .methodCall (some 2) 0 "type" [1]⟩]⟩

/-- A program with the block at its start. -/
def strayCall : Setting Unit where
  host := .uniform .anyNumber
  program := {
    graph := {
      vertices := .ofList
        [(0, strayBlock), (1, ⟨1, 0, []⟩), (2, ⟨2, 0, []⟩), (3, ⟨3, 0, []⟩)]
      edges := ∅
      successors := .ofList [(0, .ofList [2]), (1, .ofList [3]), (2, ∅), (3, ∅)] }
    functions := [⟨0, none, [], [], 0⟩]
    nodeBlocks := .ofList [(0, 0)]
    nextBlock := 4 }
  options := {}

/-- How the block ends when the call asks for a class. -/
def strayEnd : Except Error Handover × Machine Unit :=
  ((base.withLayer layer).transferBlock strayCall strayBlock).run.run
    (startWith [(0, .object ⟨100, .foreignRoot, none⟩), (1, .ofString "C")])

/-- The push does not go to the only successor of the block. -/
theorem strayCall_pushes_elsewhere :
    strayCall.program.block 0 = .ok strayBlock ∧ strayBlock.check 1 = .ok () ∧
      strayCall.program.successors 0 = .ok [2] ∧ strayEnd.1 = .ok .done ∧
      strayEnd.2.pushes.map Push.point = [⟨3, .main⟩] :=
  ⟨rfl, by decide +kernel, by decide +kernel, by decide +kernel, by decide +kernel⟩

end Dispatcher

end ScriptHeap
