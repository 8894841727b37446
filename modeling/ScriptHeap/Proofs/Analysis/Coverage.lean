import Mathlib.Logic.Relation
import ScriptHeap.Proofs.Analysis.Pushes

/-!
# Which points an analysis reaches

A run delivers to exactly the successors of the block that it works on, whether the rules hand on
the state or the driver does (`Analysis.targets_of_deliveries`). Throughout a run the points that
have a state are reached along the control flow, and those that do not wait have handed on to all
their successors (`Analysis.Covered`). When nothing waits any more, the points of the result are
therefore those that the control flow reaches from the entries of the body and of the named
functions (`Analysis.states_iff_reaches`).

Two things a flow graph may have that was read from data, and not one that was assembled, stand in
the way: a call that names a block with other successors than its own, and a further function
without a name (`Analysis.strayRun_misses_blocks`).
-/

namespace ScriptHeap

open Fallible

/-! ### Control flow -/

namespace FlowGraph

/-- Control passes from one block to another. -/
def Leads (fg : FlowGraph) (block next : Nat) : Prop :=
  ∃ successors, fg.successors block = .ok successors ∧ next ∈ successors

/-- The function is the program body, or it has a name. -/
def Starts (fg : FlowGraph) (f : Function) : Prop :=
  fg.main = .ok f ∨ f ∈ fg.functions ∧ f.isMain = false

/-- Control reaches the block from the start of a function. -/
def Reaches (fg : FlowGraph) (block : Nat) : Prop :=
  ∃ f, fg.Starts f ∧ Relation.ReflTransGen fg.Leads f.entry block

/-- A call at the end of a block names a block with the same successors. -/
def CallsInPlace (fg : FlowGraph) : Prop :=
  ∀ index block node, fg.block index = .ok block → block.nodes.getLast? = some node →
    node.kind = .call → fg.successors node.block = fg.successors index

variable {fg fg' : FlowGraph}

theorem Reaches.step {block next : Nat} (reaches : fg.Reaches block) (leads : fg.Leads block next) :
    fg.Reaches next := by
  obtain ⟨f, starts, path⟩ := reaches
  exact ⟨f, starts, path.tail leads⟩

theorem leads_iff {block next : Nat} :
    fg.Leads block next ↔ next ∈ (fg.graph.successors.get? block).getD ∅ := by
  unfold Leads successors
  cases fg.graph.successors.get? block with
  | none => exact ⟨nofun, nofun⟩
  | some set =>
      constructor
      · rintro ⟨_, ⟨⟩, member⟩
        exact FinSet.mem_toList.mp member
      · exact fun member => ⟨_, rfl, FinSet.mem_toList.mpr member⟩

/-! ### Assembled flow graphs -/

/-- Control passes along the edges. -/
def AlongEdges (fg : FlowGraph) : Prop :=
  ∀ block next, fg.Leads block next ↔ ⟨block, next⟩ ∈ fg.graph.edges

/-- A new block has no edges yet. -/
theorem AlongEdges.insertVertex (along : fg.AlongEdges) {index : Nat} {b : Block}
    (inserted : fg'.graph = fg.graph.insertVertex index b) : fg'.AlongEdges := by
  intro block next
  have before := along block next
  rw [leads_iff] at before ⊢
  rw [inserted]
  unfold Digraph.insertVertex
  simp only [FinMap.get?_insert]
  split
  · rename_i same
    rw [← same]
    exact before
  · exact before

theorem Assembled.alongEdges (assembled : fg.Assembled) : fg.AlongEdges := by
  induction assembled with
  | initial =>
      have none : (⟨.empty, [], ∅, 0⟩ : FlowGraph).AlongEdges := by
        intro block next
        rw [leads_iff]
        exact ⟨nofun, nofun⟩
      exact none.insertVertex rfl
  | addFunction _ _ _ _ ih => exact ih.insertVertex rfl
  | newBlock _ added ih =>
      obtain ⟨_, rfl⟩ := eq_of_newBlock added
      exact ih.insertVertex rfl
  | addNode _ added ih =>
      obtain ⟨_, _, rfl⟩ := eq_of_addNode added
      exact ih
  | @addEdge fg fg' head tail _ added ih =>
      intro block next
      obtain ⟨_, _, rfl⟩ := eq_of_addEdge added
      have before := ih block next
      rw [leads_iff] at before ⊢
      rw [FinMap.get?_insert, FinSet.mem_insert, Edge.mk.injEq]
      split
      · rename_i same
        subst same
        rw [Option.getD_some, FinSet.mem_insert, Digraph.following, before, eq_self_iff_true,
          true_and]
      · rename_i other
        rw [before, or_iff_right fun same => other same.1]

/-- Of the functions of an assembled flow graph, all but the first have a name. -/
theorem Assembled.named (assembled : fg.Assembled) :
    ∃ main others, fg.functions = main :: others ∧ ∀ f ∈ others, f.isMain = false := by
  induction assembled with
  | initial => exact ⟨_, [], rfl, nofun⟩
  | @addFunction fg name parameters locals _ ih =>
      obtain ⟨main, others, functions, named⟩ := ih
      refine ⟨main, others ++ [⟨fg.functions.length, some name, parameters, locals, fg.nextBlock⟩],
        ?_, ?_⟩
      · show fg.functions ++ _ = _
        rw [functions]
        rfl
      · intro f member
        rcases List.mem_append.mp member with old | new
        · exact named f old
        · rw [List.mem_singleton.mp new]
          rfl
  | newBlock _ added ih =>
      obtain ⟨_, rfl⟩ := eq_of_newBlock added
      exact ih
  | addNode _ added ih =>
      obtain ⟨_, _, rfl⟩ := eq_of_addNode added
      exact ih
  | addEdge _ added ih =>
      obtain ⟨_, _, rfl⟩ := eq_of_addEdge added
      exact ih

theorem Assembled.starts_iff (assembled : fg.Assembled) (f : Function) :
    fg.Starts f ↔ f ∈ fg.functions := by
  obtain ⟨main, others, functions, named⟩ := assembled.named
  unfold Starts FlowGraph.main
  rw [functions]
  constructor
  · rintro (body | ⟨member, _⟩)
    · cases body
      exact List.mem_cons_self
    · exact member
  · intro member
    rcases List.mem_cons.mp member with rfl | other
    · exact .inl rfl
    · exact .inr ⟨member, named f other⟩

theorem Assembled.callsInPlace (assembled : fg.Assembled) : fg.CallsInPlace := by
  intro index block node held last _
  have numbered := assembled.numbered index block (get?_of_block held)
  rw [numbered.2 node (List.mem_of_getLast? last)]

/-- In an assembled flow graph control reaches what paths of edges from the entries lead to. -/
theorem Assembled.reaches_iff (assembled : fg.Assembled) (block : Nat) :
    fg.Reaches block ↔ ∃ f ∈ fg.functions,
      Relation.ReflTransGen (fun head tail => ⟨head, tail⟩ ∈ fg.graph.edges) f.entry block := by
  have leads : fg.Leads = fun head tail => ⟨head, tail⟩ ∈ fg.graph.edges :=
    funext fun head => funext fun tail => propext (assembled.alongEdges head tail)
  unfold Reaches
  simp only [assembled.starts_iff, leads]

end FlowGraph

/-! ### Entries -/

namespace Entries

variable {entries : Entries} (order : List Nat) {point : ProgramPoint}

theorem isSome_flowAll (pushes : List Push) :
    ((entries.flowAll order pushes).states.get? point).isSome ↔
      (entries.states.get? point).isSome ∨ ∃ push ∈ pushes, push.point = point := by
  induction pushes generalizing entries with
  | nil => exact ⟨.inl, fun held => held.resolve_right (by rintro ⟨_, ⟨⟩, _⟩)⟩
  | cons push rest ih =>
      have first : ((entries.flow order push.state push.point).states.get? point).isSome ↔
          (entries.states.get? point).isSome ∨ push.point = point := by
        rw [states_flow, FinMap.get?_insert]
        split
        · rename_i same
          exact ⟨fun _ => .inr same.symm, fun _ => rfl⟩
        · rename_i other
          exact ⟨.inl, fun held => held.resolve_right fun same => other same.symm⟩
      refine Iff.trans ih ?_
      rw [first, or_assoc, List.exists_mem_cons_iff]

theorem Waits.flowAll (waiting : entries.Waits point) (pushes : List Push) :
    (entries.flowAll order pushes).Waits point := by
  induction pushes generalizing entries with
  | nil => exact waiting
  | cons push rest ih => exact ih (waiting.flow order)

/-- A point that is reached for the first time has to wait. -/
theorem waits_of_fresh (missing : entries.states.get? point = none) (pushes : List Push)
    (reached : ((entries.flowAll order pushes).states.get? point).isSome) :
    (entries.flowAll order pushes).Waits point := by
  induction pushes generalizing entries with
  | nil =>
      rw [show (entries.flowAll order []).states.get? point = none from missing] at reached
      cases reached
  | cons push rest ih =>
      by_cases same : point = push.point
      · subst same
        have waiting : (entries.flow order push.state push.point).Waits push.point := by
          rw [flow_of_fresh order missing]
          exact waits_enqueue order
        exact waiting.flowAll order rest
      · refine ih ?_ reached
        rw [states_flow, FinMap.get?_insert, if_neg same]
        exact missing

/-- Entry states are in a context if all that flows is. -/
theorem context_flowAll {c : CallString} {pushes : List Push}
    (inside : ∀ point e, entries.states.get? point = some e → e.context = c)
    (flowing : ∀ push ∈ pushes, push.state.context = c) :
    ∀ point e, (entries.flowAll order pushes).states.get? point = some e → e.context = c := by
  refine forall_flowAll (Q := fun _ e => e.context = c) order (fun _ _ => id)
    (fun _ e s own _ => ?_) inside flowing
  rw [State.join_eq]
  exact own

end Entries

/-! ### Runs -/

namespace Analysis

variable {σ : Type} {a : Analysis σ}

/-- The rules are the ordinary ones, or those for host values with calls in their places. -/
def Orderly (a : Analysis σ) : Prop :=
  a.dispatcher = .base ∨
    a.dispatcher = Dispatcher.base.withLayer Foreign.layer ∧ a.setting.program.CallsInPlace

/-- A point delivers to the successors of its block, once to each, in its own context. -/
theorem targets_of_deliveries (checked : a.setting.program.check = .ok ()) (orderly : a.Orderly)
    {point : ProgramPoint} {entry : State} (inside : entry.context = point.context)
    {pushes : List Push} {w w' : World σ}
    (delivered : (a.deliveries point entry).run.run w = (.ok pushes, w')) :
    (∀ push ∈ pushes, push.state.context = point.context) ∧
      ∃ successors, a.setting.program.successors point.block = .ok successors ∧
        pushes.map Push.point = successors.map fun block => ⟨block, point.context⟩ := by
  obtain ⟨block, handover, m, held, ran, _, handsOn⟩ := of_deliveries delivered
  have calls := FlowGraph.calls_of_check checked (FlowGraph.mem_blocks held)
  -- Whoever hands on, the context is kept, and the rules push only what the call hands over.
  obtain ⟨context, done, pending⟩ : m.state.context = point.context ∧
      (handover = .done → ∃ target, a.setting.program.successors point.block = .ok [target] ∧
        m.pushes = [⟨m.state, ⟨target, m.state.context⟩⟩]) ∧
      (handover = .pending → m.pushes = []) := by
    unfold Dispatcher.transferBlock at ran
    rcases orderly with base | ⟨layered, inPlace⟩
    · rw [base] at ran
      have silent : Foreign.Silent [] entry.context
          (Dispatcher.base.transferNodes a.setting block.index block.nodes) (· = .pending) :=
        Dispatcher.silent_transferNodes_base block.index block.nodes [] entry.context
      obtain ⟨rests, result, _⟩ := silent ⟨w, entry, []⟩ ⟨rfl, rfl⟩
      rw [ran] at rests result
      refine ⟨rests.context.trans inside, fun same => ?_, fun _ => rests.pushes⟩
      cases same.symm.trans (result handover rfl)
    · rw [layered] at ran
      obtain ⟨context, handed, kept⟩ :=
        Dispatcher.transferNodes_delivers Foreign.delivers_dispatch block.index calls ran
      refine ⟨context.trans inside, fun same => ?_, fun same => kept (by rw [same]; nofun)⟩
      obtain ⟨node, last, kind, target, single, pushed, _⟩ := handed (congrArg Except.ok same)
      rw [inPlace point.block block node held last kind] at single
      exact ⟨target, single, pushed⟩
  cases handover with
  | done =>
      obtain ⟨target, single, pushed⟩ := done rfl
      rw [show pushes = m.pushes from handsOn, pushed]
      refine ⟨fun push member => ?_, [target], single, ?_⟩
      · rw [List.mem_singleton.mp member]
        exact context
      · rw [context]
        rfl
  | pending =>
      obtain ⟨successors, known, flowed⟩ := handsOn
      rw [flowed, pending rfl]
      refine ⟨fun push member => ?_, successors, known, ?_⟩
      · obtain ⟨block, _, rfl⟩ := List.mem_map.mp member
        exact context
      · rw [List.nil_append, List.map_map]
        rfl

/-- What holds of the entries of a run all along: the points that have a state are reached by
    control flow, and a point that does not wait has handed on to all its successors. -/
structure Covered (program : FlowGraph) (entries : Entries) : Prop where
  context : ∀ point e, entries.states.get? point = some e → e.context = .main
  reaches : ∀ point, (entries.states.get? point).isSome →
    point.context = .main ∧ program.Reaches point.block
  closed : ∀ point, (entries.states.get? point).isSome → entries.Waits point ∨
    ∀ next, program.Leads point.block next → (entries.states.get? ⟨next, .main⟩).isSome
  started : ∀ f, program.Starts f → (entries.states.get? ⟨f.entry, .main⟩).isSome

theorem covered_start {main : Function} (body : a.setting.program.main = .ok main)
    (order : List Nat) (t : Interner) :
    Covered a.setting.program (Entries.empty.flowAll order (a.starts main t)) := by
  have entered : ∀ push ∈ a.starts main t, push.state.context = .main ∧
      ∃ f, a.setting.program.Starts f ∧ push.point = ⟨f.entry, .main⟩ := by
    intro push member
    rcases List.mem_cons.mp member with rfl | member
    · exact ⟨rfl, main, .inl body, rfl⟩
    · obtain ⟨f, listed, rfl⟩ := List.mem_map.mp member
      obtain ⟨among, named⟩ := List.mem_filter.mp listed
      exact ⟨State.context_entered _ _ _, f, .inr ⟨among, by simpa using named⟩, rfl⟩
  refine ⟨?_, ?_, ?_, ?_⟩
  · exact Entries.context_flowAll order nofun fun push member => (entered push member).1
  · intro point reached
    obtain ⟨push, member, rfl⟩ :=
      ((Entries.isSome_flowAll order _).mp reached).resolve_left nofun
    obtain ⟨_, f, starts, same⟩ := entered push member
    rw [same]
    exact ⟨rfl, f, starts, .refl⟩
  · exact fun point reached => .inl (Entries.waits_of_fresh order rfl _ reached)
  · intro f starts
    refine (Entries.isSome_flowAll order _).mpr (.inr ?_)
    rcases starts with first | ⟨member, named⟩
    · cases body.symm.trans first
      exact ⟨_, List.mem_cons_self, rfl⟩
    · refine ⟨a.functionStart f t, List.mem_cons_of_mem _ (List.mem_map_of_mem ?_), rfl⟩
      exact List.mem_filter.mpr ⟨member, by simp [named]⟩

/-- A visit keeps the cover: the point that leaves the queue hands on to its successors. -/
theorem Covered.visit (checked : a.setting.program.check = .ok ()) (orderly : a.Orderly)
    {entries rest : Entries} (covered : Covered a.setting.program entries) {point : ProgramPoint}
    {entry : State} {pushes : List Push} {w w' : World σ}
    (next : entries.next? = some (point, rest)) (found : rest.states.get? point = some entry)
    (delivered : (a.deliveries point entry).run.run w = (.ok pushes, w')) (order : List Nat) :
    Covered a.setting.program (rest.flowAll order pushes) := by
  have states := Entries.states_of_next next
  rw [states] at found
  obtain ⟨main, reaches⟩ := covered.reaches point (by rw [found]; rfl)
  have inside : entry.context = point.context := (covered.context point entry found).trans main.symm
  obtain ⟨flowing, successors, known, targets⟩ :=
    targets_of_deliveries checked orderly inside delivered
  have pushed : ∀ other, (∃ push ∈ pushes, push.point = other) ↔
      ∃ block ∈ successors, ⟨block, .main⟩ = other := by
    intro other
    rw [← List.mem_map, targets, List.mem_map, main]
  have stored : ∀ other, ((rest.flowAll order pushes).states.get? other).isSome ↔
      (entries.states.get? other).isSome ∨ ∃ block ∈ successors, ⟨block, .main⟩ = other := by
    intro other
    rw [Entries.isSome_flowAll, states, pushed]
  refine ⟨?_, ?_, ?_, ?_⟩
  · refine Entries.context_flowAll order (states ▸ covered.context) fun push member => ?_
    rw [flowing push member, main]
  · intro other reached
    rcases (stored other).mp reached with old | ⟨block, member, rfl⟩
    · exact covered.reaches other old
    · exact ⟨rfl, reaches.step ⟨successors, known, member⟩⟩
  · intro other reached
    by_cases fresh : entries.states.get? other = none
    · exact .inl (Entries.waits_of_fresh order (states ▸ fresh) pushes reached)
    by_cases same : other = point
    · refine .inr fun block leads => (stored _).mpr (.inr ?_)
      obtain ⟨_, known', member⟩ := leads
      rw [same, known] at known'
      cases known'
      exact ⟨block, member, rfl⟩
    · rcases covered.closed other (Option.isSome_iff_ne_none.mpr fresh) with waiting | handed
      · exact .inl ((Entries.waits_of_next next same waiting).flowAll order pushes)
      · exact .inr fun block leads => (stored _).mpr (.inl (handed block leads))
  · exact fun f starts => (stored _).mpr (.inl (covered.started f starts))

/-- At the end of a run everything is covered, and nothing waits. -/
theorem Covered.trace (checked : a.setting.program.check = .ok ()) (orderly : a.Orderly)
    {order : List Nat} {entries last : Entries} {w w' : World σ} {visits : List (Visit σ)}
    (covered : Covered a.setting.program entries)
    (trace : a.Trace order entries w visits last w') :
    Covered a.setting.program last ∧ ∀ point, ¬ last.Waits point := by
  induction trace with
  | idle none => exact ⟨covered, fun _ => Entries.not_waits_of_next none⟩
  | visit next found delivered _ ih =>
      exact ih (covered.visit checked orderly next found delivered order)

/-- Where nothing waits, exactly the points that control flow reaches have a state. -/
theorem Covered.isSome_iff {program : FlowGraph} {entries : Entries}
    (covered : Covered program entries) (idle : ∀ point, ¬ entries.Waits point)
    (point : ProgramPoint) :
    (entries.states.get? point).isSome ↔ point.context = .main ∧ program.Reaches point.block := by
  refine ⟨covered.reaches point, ?_⟩
  obtain ⟨block, context⟩ := point
  rintro ⟨main, f, starts, (path : Relation.ReflTransGen program.Leads f.entry block)⟩
  obtain rfl : context = .main := main
  -- Along a path from an entry, each block hands on to the next.
  induction path with
  | refl => exact covered.started f starts
  | tail _ leads ih => exact (covered.closed _ ih).resolve_left (idle _) _ leads

theorem isSome_states_iff (orderly : a.Orderly) {w w' : World σ} {result : FixedPoint}
    (done : a.fixedPoint.run.run w = (.ok result, w')) (sound : result.isSound = true)
    (point : ProgramPoint) :
    (result.states.get? point).isSome ↔
      point.context = .main ∧ a.setting.program.Reaches point.block := by
  obtain ⟨last, ⟨main, order, entries, w₁, body, started, trace⟩, same⟩ :=
    runs_of_fixedPoint done sound
  have start := covered_start body order (w.interner.reset)
  rw [of_start_flows started] at trace
  obtain ⟨covered, idle⟩ := start.trace (checked_of_fixedPoint done) orderly trace
  rw [← same]
  exact covered.isSome_iff idle point

/-- The points of a sound result are those that control reaches from the entry of the body and of
    the functions with a name, in the outermost context, if calls stand in their places or the
    rules are the ordinary ones. In an assembled flow graph they are those that the edges lead to
    from the entries of all functions. -/
theorem states_iff_reaches {a : Analysis σ} (standard : a.Standard) {w w' : World σ}
    {result : FixedPoint} (done : a.fixedPoint.run.run w = (.ok result, w'))
    (sound : result.isSound = true) :
    (a.dispatcher = .base ∨ a.setting.program.CallsInPlace → ∀ point,
      (result.states.get? point).isSome ↔
        point.context = .main ∧ a.setting.program.Reaches point.block) ∧
    (a.setting.program.Assembled → ∀ point,
      (result.states.get? point).isSome ↔
        point.context = .main ∧ ∃ f ∈ a.setting.program.functions,
          Relation.ReflTransGen (fun head tail => ⟨head, tail⟩ ∈ a.setting.program.graph.edges)
            f.entry point.block) := by
  have orderly : a.dispatcher = .base ∨ a.setting.program.CallsInPlace → a.Orderly := by
    rintro (base | inPlace)
    · exact .inl base
    · exact standard.imp_right fun layered => ⟨layered, inPlace⟩
  refine ⟨fun either => isSome_states_iff (orderly either) done sound, fun assembled point => ?_⟩
  rw [isSome_states_iff (orderly (.inr assembled.callsInPlace)) done sound point,
    assembled.reaches_iff]

/-- The blocks of the points of a sound result, in order. -/
def soundBlocks? (a : Analysis σ) (w : World σ) : Option (List Nat) :=
  match (a.fixedPoint.run.run w).1 with
  | .ok result => if result.isSound then some (result.states.keys.map ProgramPoint.block) else none
  | .error _ => none

theorem of_soundBlocks? {a : Analysis σ} {w : World σ} {blocks : List Nat}
    (seen : a.soundBlocks? w = some blocks) :
    ∃ result w', a.fixedPoint.run.run w = (.ok result, w') ∧ result.isSound = true ∧
      result.states.keys.map ProgramPoint.block = blocks := by
  unfold soundBlocks? at seen
  rcases ran : a.fixedPoint.run.run w with ⟨e | result, w'⟩
  · rw [ran] at seen
    cases seen
  · rw [ran] at seen
    obtain ⟨sound, same⟩ := Option.ite_none_right_eq_some.mp seen
    exact ⟨result, w', rfl, sound, Option.some.inj same⟩

/-- A program that asks the host for a class and then loops, with a block that nothing leads to and
    a function that is entered from outside. -/
def sideEntrance : Analysis Unit where
  setting := {
    host := .uniform .anyNumber
    program := .sketch [("f", ["x"])] 4
      [(0, .readVariable 0 "Java"), (0, .constant 1 (.string "C")),
        (0, .methodCall (some 2) 0 "type" [1]), (1, .readVariable 0 "x"), (2, .construct 3 2 []),
        (4, .constant 4 .null)]
      [(0, 2), (2, 3), (3, 2), (4, 3), (1, 5)]
    options := {} }
  dispatcher := Dispatcher.base.withLayer Foreign.layer

/-- All blocks of the program have a state but the one that nothing leads to. -/
theorem sideEntrance_covered :
    ∃ result w', sideEntrance.fixedPoint.run.run ⟨.initial, (), []⟩ = (.ok result, w') ∧
      result.isSound = true ∧ result.states.keys.map ProgramPoint.block = [0, 1, 2, 3, 5] ∧
      ∀ point, (result.states.get? point).isSome ↔
        point.context = .main ∧ ∃ f ∈ sideEntrance.setting.program.functions,
          Relation.ReflTransGen
            (fun head tail => ⟨head, tail⟩ ∈ sideEntrance.setting.program.graph.edges)
            f.entry point.block := by
  have seen : sideEntrance.soundBlocks? ⟨.initial, (), []⟩ = some [0, 1, 2, 3, 5] := by
    decide +kernel
  obtain ⟨result, w', ran, sound, blocks⟩ := of_soundBlocks? seen
  have standard : sideEntrance.Standard := .inr rfl
  exact ⟨result, w', ran, sound, blocks,
    (states_iff_reaches standard ran sound).2 (.sketch _ _ _ _)⟩

/-- A program whose first block ends in a call that names another block as its own, and which has a
    second function without a name. -/
def strayRun : Analysis Unit where
  setting := {
    host := .uniform .anyNumber
    program := {
      graph := {
        vertices := .ofList
          [(0, ⟨0, 0, [⟨0, 0, .readVariable 0 "Java"⟩, ⟨1, 0, .constant 1 (.string "C")⟩,
              ⟨2, 1, .methodCall (some 2) 0 "type" [1]⟩]⟩),
            (1, ⟨1, 0, []⟩), (2, ⟨2, 0, []⟩), (3, ⟨3, 0, []⟩), (4, ⟨4, 1, []⟩)]
        edges := ∅
        successors := .ofList [(0, .ofList [2]), (1, .ofList [3]), (2, ∅), (3, ∅), (4, ∅)] }
      functions := [⟨0, none, [], [], 0⟩, ⟨1, none, [], [], 4⟩]
      nodeBlocks := .ofList [(0, 0), (1, 0), (2, 0)]
      nextBlock := 5 }
    options := {} }
  dispatcher := Dispatcher.base.withLayer Foreign.layer

/-- Control passes from the entry of the body to block 2, and block 4 is the entry of a function.
    Neither has a state, and block 3 has one. -/
theorem strayRun_misses_blocks :
    strayRun.Standard ∧
      (∃ result w', strayRun.fixedPoint.run.run ⟨.initial, (), []⟩ = (.ok result, w') ∧
        result.isSound = true ∧ result.states.keys.map ProgramPoint.block = [0, 3]) ∧
      (∃ main, strayRun.setting.program.main = .ok main ∧
        strayRun.setting.program.Leads main.entry 2) ∧
      ∃ f ∈ strayRun.setting.program.functions, f.entry = 4 := by
  have seen : strayRun.soundBlocks? ⟨.initial, (), []⟩ = some [0, 3] := by decide +kernel
  exact ⟨.inr rfl, of_soundBlocks? seen, ⟨_, rfl, [2], by decide +kernel, by decide⟩,
    ⟨1, none, [], [], 4⟩, by decide +kernel, rfl⟩

end Analysis

end ScriptHeap
