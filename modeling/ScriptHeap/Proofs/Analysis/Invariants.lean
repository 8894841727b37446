import ScriptHeap.Proofs.Analysis.EntryValues
import ScriptHeap.Proofs.Analysis.PostFixpoint
import ScriptHeap.Proofs.Program.Assembly
import ScriptHeap.Proofs.Transfer.Safety

/-!
# Failures of invariants in an analysis

In a flow graph that was assembled step by step every node knows its block
(`FlowGraph.Assembled.numbered`), and in one that passes the check calls come last in their blocks
(`FlowGraph.calls_of_check`). An analysis of such a flow graph with the rules for host values then
breaks no invariant but one: a call that the host answers has to have one block to go on in
(`Analysis.notOneSuccessor_of_fixedPoint`). The check does not ask for that.
-/

namespace ScriptHeap

open Fallible

/-! ### Checked and assembled flow graphs -/

/-- In a block that passes the check, a call comes last. -/
theorem Block.calls_of_check {block : Block} {successors : Nat}
    (passed : block.check successors = .ok ()) :
    ∀ node ∈ block.nodes.dropLast, node.kind ≠ .call := by
  intro node inside isCall
  unfold Block.check at passed
  cases found : block.nodes.dropLast.find? fun node => node.kind = .call with
  | none => simpa [isCall] using List.find?_eq_none.mp found node inside
  | some call =>
      simp only [found] at passed
      cases passed

namespace FlowGraph

variable {fg : FlowGraph}

theorem Assembled.sketch (functions : List (String × List String)) (blocks : Nat)
    (nodes : List (Nat × Operation)) (edges : List (Nat × Nat)) :
    (FlowGraph.sketch functions blocks nodes edges).Assembled := by
  unfold FlowGraph.sketch
  refine .foldl ?_ edges (.foldl ?_ nodes (.foldl ?_ _ (.foldl ?_ functions .initial)))
  · intro fg edge assembled
    cases added : fg.addEdge edge.1 edge.2 with
    | error => exact assembled
    | ok => exact .addEdge assembled added
  · intro fg node assembled
    cases added : fg.addNode node.1 node.2 with
    | error => exact assembled
    | ok => exact .addNode assembled added
  · intro fg _ assembled
    cases added : fg.newBlock 0 with
    | error => exact assembled
    | ok => exact .newBlock assembled added
  · exact fun fg f assembled => .addFunction f.1 f.2 [] assembled

/-! ### The check -/

theorem of_forM_eq_ok {ε α : Type} {f : α → Except ε Unit} {items : List α}
    (done : items.forM f = .ok ()) : ∀ item ∈ items, f item = .ok () := by
  induction items with
  | nil => exact nofun
  | cons item rest ih =>
      obtain ⟨_, first, later⟩ := of_bind_eq_ok (done : (f item >>= fun _ => rest.forM f) = _)
      exact List.forall_mem_cons.mpr ⟨first, ih later⟩

theorem main_of_check (checked : fg.check = .ok ()) : ∃ main, fg.main = .ok main := by
  obtain ⟨main, found, _⟩ := of_bind_eq_ok checked
  exact ⟨main, found⟩

/-- In a flow graph that passes the check, calls come last in their blocks. -/
theorem calls_of_check (checked : fg.check = .ok ()) {block : Block} (member : block ∈ fg.blocks) :
    ∀ node ∈ block.nodes.dropLast, node.kind ≠ .call := by
  obtain ⟨_, _, each⟩ := of_bind_eq_ok checked
  obtain ⟨successors, _, passed⟩ := of_bind_eq_ok (of_forM_eq_ok each block member)
  exact Block.calls_of_check passed

/-- A block breaks an invariant: it ends in a call and does not have one successor. -/
def Breaks (fg : FlowGraph) (cause : InvariantCause) : Prop :=
  ∃ block ∈ fg.blocks, ∃ node, block.nodes.getLast? = some node ∧ fg.Blames node cause

end FlowGraph

theorem Error.of_locate_invariant {e : Error} {run : Nat} {point : ProgramPoint}
    {cause : InvariantCause} (located : e.locate run point = .invariant cause) :
    e = .invariant cause := by
  cases e <;> first | exact located | cases located

/-! ### Analyses -/

namespace Analysis

variable {α : Type} {a : Analysis ClassTable}

/-- A step of an analysis keeps class names in place in the host, and breaks an invariant only where
    a block of the program is to blame. -/
abbrev Safe (program : FlowGraph) (x : Analyzing ClassTable α) (P : α → Prop) : Prop :=
  Fallible.Safe (fun w : World ClassTable => w.host.All Value.Named)
    (fun e => ∀ cause, e = .invariant cause → program.Breaks cause) x P

/-- What holds of the entries of an analysis all along. -/
structure Sane (entries : Entries) : Prop where
  named : entries.Each Value.Named
  reached : entries.Reached

variable {program : FlowGraph} {P : α → Prop}

theorem safe_ofResult {r : Except Error α} (missing : FailsOnly Error.Missing r)
    (holds : ∀ a, r = .ok a → P a) : Safe program (ofResult r) P := by
  refine .ofResult holds ?_
  rintro e failed cause rfl
  cases missing _ failed

theorem safe_interning {f : Interner → α × Interner} (holds : ∀ t, P (f t).1) :
    Safe program (interning f) P :=
  .modifyGet (fun _ named => named) fun w _ => holds w.interner

theorem closed_global : Value.Closed Value.Named .global :=
  Value.closed_named (by rintro (kind | kind) <;> cases kind)

theorem Sane.flowAll {entries : Entries} (sane : Sane entries) (order : List Nat)
    {pushes : List Push} (named : ∀ push ∈ pushes, push.state.contents.Each Value.Named) :
    Sane (entries.flowAll order pushes) :=
  ⟨sane.named.flowAll order closed_global named, sane.reached.flowAll order pushes⟩

theorem Sane.flow {entries : Entries} (sane : Sane entries) (order : List Nat) {s : State}
    (named : s.contents.Each Value.Named) (point : ProgramPoint) :
    Sane (entries.flow order s point) :=
  ⟨sane.named.flow order closed_global named point, sane.reached.flow order s point⟩

theorem safe_startState (f : Function) :
    Safe program (a.startState f) fun s => s.contents.Each Value.Named :=
  safe_interning fun _ => State.initial_each closed_global _ _ _ _

theorem safe_start (order : List Nat) (main : Function) :
    Safe program (a.start order main) Sane := by
  refine .bind (safe_startState main) fun s named => .foldlM _ (fun f _ entries sane => ?_) ?_
  · refine .bind (safe_startState f) fun s named => ?_
    refine .bind (safe_interning fun t => State.enterFunction_each closed_global named t f ?_)
      fun s entered => .pure (sane.flow order entered _)
    intro v member
    rw [List.eq_of_mem_replicate member]
    exact .of_noLabels rfl
  · have empty : Sane .empty := ⟨nofun, Entries.reached_empty⟩
    exact empty.flow order named _

section Run

variable (checked : a.setting.program.check = .ok ()) (tabled : a.setting.host = ClassTable.host)
  (layered : a.dispatcher = Dispatcher.base.withLayer Foreign.layer)

include checked tabled layered

theorem safe_transfer {block : Block} (member : block ∈ a.setting.program.blocks) {s : State}
    (named : s.contents.Each Value.Named) :
    Safe a.setting.program (a.transfer block s) fun (outcome, s', pushes) =>
      (∀ cause, outcome = .error (.invariant cause) → a.setting.program.Breaks cause) ∧
        s'.contents.Each Value.Named ∧ ∀ push ∈ pushes, push.state.contents.Each Value.Named := by
  intro w host
  obtain ⟨kept, _, error⟩ := Foreign.safe_transferNodes tabled block.index
    (FlowGraph.calls_of_check checked member) ⟨w, s, []⟩ ⟨named, nofun, host⟩
  rcases ran : (a.dispatcher.transferBlock a.setting block).run.run ⟨w, s, []⟩ with ⟨outcome, m⟩
  rw [run_transfer a block s w ran]
  unfold Dispatcher.transferBlock at ran
  rw [layered] at ran
  rw [ran] at kept error
  refine ⟨kept.host, ?_, ?_⟩
  · rintro _ ⟨⟩
    refine ⟨fun cause failed => ?_, kept.state, kept.pushes⟩
    obtain ⟨node, last, blamed⟩ := error _ failed cause rfl
    exact ⟨block, member, node, last, blamed⟩
  · rintro _ ⟨⟩

/-- A round breaks an invariant only where a block is to blame. -/
theorem safe_work (run : Nat) (order : List Nat) {p : Progress} {point : ProgramPoint}
    (sane : Sane p.entries) (reached : (p.entries.states.get? point).isSome) :
    Safe a.setting.program (a.work run order p point) fun q => Sane q.entries := by
  obtain ⟨entry, found⟩ := Option.isSome_iff_exists.mp reached
  unfold work
  rw [found]
  refine .bind (safe_ofResult (.block _ _) fun _ => id) fun block held => ?_
  refine .bind (safe_transfer checked tabled layered (FlowGraph.mem_blocks held)
    (sane.named point entry found)) ?_
  rintro ⟨outcome, s, pushes⟩ ⟨broken, named, namedPushes⟩
  have pushed := sane.flowAll order namedPushes
  rcases outcome with e | handover
  · refine .ite (.throw fun cause same => broken cause ?_) (.pure pushed)
    rw [Error.of_locate_invariant same]
  · cases handover with
    | done => exact .pure pushed
    | pending =>
        refine .bind (safe_ofResult (.successors _ _) fun _ _ => trivial) fun successors _ =>
          .pure (pushed.flowAll order ?_)
        intro push member
        obtain ⟨block, _, rfl⟩ := List.mem_map.mp member
        rw [State.contents_freezeHeap]
        exact named

/-- The rounds break an invariant only where a block is to blame. -/
theorem safe_iterate (run : Nat) (order : List Nat) (rounds : Nat) {p : Progress}
    (sane : Sane p.entries) :
    Safe a.setting.program (a.iterate run order rounds p) fun q => Sane q.entries := by
  induction rounds generalizing p with
  | zero =>
      unfold iterate
      cases p.entries.next? with
      | none => exact .pure sane
      | some next => exact .throw (by rintro _ ⟨⟩)
  | succ rounds ih =>
      unfold iterate
      cases next : p.entries.next? with
      | none => exact .pure sane
      | some first =>
          obtain ⟨point, rest⟩ := first
          have states := Entries.states_of_next next
          obtain ⟨reached, reachedRest⟩ := sane.reached.next next
          have named : rest.Each Value.Named :=
            fun other e found => sane.named other e (states ▸ found)
          exact .bind (safe_work checked tabled layered run order ⟨named, reachedRest⟩ reached)
            fun q => ih

theorem safe_fixedPoint : Safe a.setting.program a.fixedPoint fun _ => True := by
  obtain ⟨main, found⟩ := FlowGraph.main_of_check checked
  refine .bind (safe_interning (P := fun _ => True) fun _ => trivial) fun run _ => ?_
  rw [checked, found]
  refine .bind (safe_ofResult (.ok _) fun _ _ => trivial) fun _ _ =>
    .bind (safe_ofResult (.ok _) fun _ _ => trivial) fun main _ =>
    .bind (safe_ofResult (.reversePostOrder _ _) fun _ _ => trivial) fun order _ =>
    .bind (safe_start order main) fun entries sane =>
    .bind (safe_iterate checked tabled layered run order _ sane) fun _ _ => .pure trivial

end Run

/-- An analysis of a checked program with the rules for host values breaks no invariant but one:
    some block ends in a call and does not have exactly one successor. -/
theorem notOneSuccessor_of_fixedPoint {a : Analysis ClassTable}
    (assembled : a.setting.program.Assembled) (checked : a.setting.program.check = .ok ())
    (tabled : a.setting.host = ClassTable.host)
    (layered : a.dispatcher = Dispatcher.base.withLayer Foreign.layer) {w : World ClassTable}
    (named : w.host.All Value.Named) {cause : InvariantCause}
    (failed : (a.fixedPoint.run.run w).1 = .error (.invariant cause)) :
    ∃ block node successors, a.setting.program.block block.index = .ok block ∧
      block.nodes.getLast? = some node ∧ node.kind = .call ∧
      a.setting.program.successors block.index = .ok successors ∧ successors.length ≠ 1 ∧
      cause = .notOneSuccessor block.index successors.length := by
  obtain ⟨_, _, error⟩ := safe_fixedPoint checked tabled layered w named
  obtain ⟨block, member, node, last, kind, successors, found, several, rfl⟩ :=
    error _ failed cause rfl
  obtain ⟨index, held⟩ := FinMap.mem_values_iff.mp member
  obtain ⟨rfl, nodes⟩ := assembled.numbered index block held
  have home : node.block = block.index := nodes node (List.mem_of_getLast? last)
  rw [home] at found ⊢
  refine ⟨block, node, successors, ?_, last, kind, found, several, rfl⟩
  unfold FlowGraph.block
  rw [held]

/-- The error of a computation that fails. -/
def failure? {α : Type} : Except Error α → Option Error
  | .ok _ => none
  | .error e => some e

theorem of_failure? {α : Type} {r : Except Error α} {e : Error} (failed : failure? r = some e) :
    r = .error e := by
  cases r with
  | ok => cases failed
  | error => exact congrArg Except.error (Option.some.inj failed)

/-- A program that asks the host for a class and ends there. -/
def deadEnd : Analysis ClassTable where
  setting := {
    host := ClassTable.host
    program := .sketch [] 0
      [(0, .readVariable 0 "Java"), (0, .constant 1 (.string "C")),
        (0, .methodCall (some 2) 0 "type" [1])] []
    options := {} }
  dispatcher := Dispatcher.base.withLayer Foreign.layer

/-- The program passes the check, and its analysis breaks an invariant. -/
theorem deadEnd_breaks :
    deadEnd.setting.program.Assembled ∧ deadEnd.setting.program.check = .ok () ∧
      ClassTable.empty.All Value.Named ∧
      (deadEnd.fixedPoint.run.run ⟨.initial, .empty, []⟩).1 =
        .error (.invariant (.notOneSuccessor 0 0)) :=
  ⟨.sketch _ _ _ _, by decide +kernel, nofun, of_failure? (by decide +kernel)⟩

/-- The invariant that it breaks is that of its only block. -/
theorem deadEnd_ends_in_call :
    ∃ block node successors, deadEnd.setting.program.block block.index = .ok block ∧
      block.nodes.getLast? = some node ∧ node.kind = .call ∧
      deadEnd.setting.program.successors block.index = .ok successors ∧ successors.length ≠ 1 ∧
      InvariantCause.notOneSuccessor 0 0 = .notOneSuccessor block.index successors.length :=
  notOneSuccessor_of_fixedPoint (.sketch _ _ _ _) (by decide +kernel) rfl rfl
    (w := ⟨.initial, .empty, []⟩) nofun (of_failure? (by decide +kernel))

end Analysis

end ScriptHeap
