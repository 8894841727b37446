import ScriptHeap.Proofs.Analysis.Invariants
import ScriptHeap.Proofs.Analysis.MustFacts
import ScriptHeap.Proofs.Analysis.Outline
import ScriptHeap.Proofs.Transfer.Bounds
import ScriptHeap.Proofs.Transfer.Hostless

/-!
# Programs without host values

A program that does not read the root of the host's namespace never meets a host value: none is in
the start states, and the ordinary rules make none. So an analysis with the layer for host values
that comes to an end takes the same rounds as one without it, with the same entry states, and the
host has no part in it (`Analysis.fixedPoint_conservative`).

The converse fails. A rule of the layer looks at the receiver of a call, which the ordinary rules
do not look at, and stops where its register was never written.
-/

namespace ScriptHeap

open Fallible

/-- No node of the program reads the variable. -/
def FlowGraph.Avoids (program : FlowGraph) (name : String) : Prop :=
  ∀ node ∈ program.nodes, node.operation.readsVariable name = false

instance (program : FlowGraph) (name : String) : Decidable (program.Avoids name) :=
  List.decidableBAll _ _

namespace Analysis

variable {σ : Type}

/-! ### Start states -/

/-- The rules have no part in the start. -/
theorem start_dispatcher (setting : Setting σ) (d e : Dispatcher σ) :
    (Analysis.mk setting d).start = (Analysis.mk setting e).start := rfl

/-- A step of an analysis in which the host has no part, and whose result has a property. -/
abbrev Unasked {α : Type} (host : σ) (questions : List Event) (x : Analyzing σ α)
    (P : α → Prop) : Prop :=
  Fallible.Safe (fun w => w.host = host ∧ w.questions = questions) (fun _ => True) x P

section Start

variable {P : Value → Prop} {label : Label} (closed : Value.Closed P label) {a : Analysis σ}
  {host : σ} {questions : List Event}

theorem unasked_interning {α : Type} {f : Interner → α × Interner} {Q : α → Prop}
    (holds : ∀ t, Q (f t).1) : Unasked host questions (interning f) Q :=
  .modifyGet (fun _ kept => kept) fun w _ => holds w.interner

include closed

theorem unasked_startState (f : Function) :
    Unasked host questions (a.startState f) fun s => s.contents.Each P :=
  unasked_interning fun _ => State.initial_each closed _ _ _ _

/-- Every value in the start states has a closed property. -/
theorem unasked_start (order : List Nat) (main : Function) :
    Unasked host questions (a.start order main) (Entries.Each P) := by
  apply Fallible.Safe.bind (unasked_startState closed main)
  intro s each
  have empty : Entries.empty.Each P := nofun
  apply Fallible.Safe.foldlM _ _ (empty.flow order closed each _)
  intro f _ entries each
  apply Fallible.Safe.bind (unasked_startState closed f)
  intro s initial
  have entered : ∀ t, (s.enterFunction t f
      (List.replicate f.parameters.length .anyPrimitive)).1.contents.Each P := by
    intro t
    apply State.enterFunction_each closed initial t f
    intro v member
    rw [List.eq_of_mem_replicate member]
    exact closed.flags _ rfl
  exact .bind (unasked_interning entered) fun s holds => .pure (each.flow order closed holds _)

theorem of_start_each {order : List Nat} {main : Function} {entries : Entries} {w w' : World σ}
    (started : (a.start order main).run.run w = (.ok entries, w')) :
    entries.Each P ∧ w'.host = w.host ∧ w'.questions = w.questions := by
  obtain ⟨kept, result, _⟩ := unasked_start closed order main w ⟨rfl, rfl⟩
  rw [started] at kept result
  exact ⟨result entries rfl, kept⟩

end Start

/-! ### Rounds -/

theorem run_ofResult {α : Type} {r : Except Error α} {x : α} (known : r = .ok x) (w : World σ) :
    (ofResult r).run.run w = (.ok x, w) := by
  rw [known]
  rfl

/-- A round by the ordinary rules keeps a closed property of every value in the entry states, and
    the host has no part in it. -/
theorem of_work_base {P : Value → Prop} (closed : ∀ node : Node, Value.Closed P node.label)
    {a : Analysis σ} (base : a.dispatcher = .base) {run : Nat} {order : List Nat} {p q : Progress}
    {point : ProgramPoint} {w w' : World σ} (each : p.entries.Each P)
    (worked : (a.work run order p point).run.run w = (.ok q, w')) :
    q.entries.Each P ∧ w'.host = w.host ∧ w'.questions = w.questions := by
  obtain ⟨entry, block, outcome, m, found, _, ran, rfl, rounded⟩ := work_cases worked
  unfold Dispatcher.transferBlock at ran
  rw [base] at ran
  have unasked : Transfer.Unasked w.host w.questions _ :=
    .transferNodes a.setting block.index block.nodes
  replace unasked := unasked ⟨w, entry, []⟩ ⟨rfl, rfl⟩
  rw [ran] at unasked
  refine ⟨?_, unasked.1⟩
  obtain ⟨done, failed⟩ :=
    Dispatcher.run_transferNodes_base a.setting block.index block.nodes ⟨w, entry, []⟩
  rw [ran] at done failed
  cases result : entry.contents.run a.setting.program block.nodes with
  | error e =>
      -- An error of the ordinary rules is not passed over.
      cases failed e result
      have fatal := (FailsOnly.run _ _ _ e result).isFatal
      have passed := rounded.1
      rw [Error.locate_of_isFatal fatal, fatal] at passed
      cases passed
  | ok d =>
      obtain ⟨m', same, contents, pushed⟩ := done d result
      cases same
      obtain ⟨pushes, ⟨successors, _, rfl⟩, rfl⟩ := rounded
      apply each.flowAll order (closed default)
      intro push member
      rw [pushed, List.nil_append] at member
      obtain ⟨b, _, rfl⟩ := List.mem_map.mp member
      rw [State.contents_freezeHeap, contents]
      exact Contents.Each.run (fun node _ => closed node) (each point entry found) result

/-- No more round of an iteration. -/
theorem run_iterate_idle {a : Analysis σ} {run : Nat} {order : List Nat} {rounds : Nat}
    {p : Progress} {w : World σ} (idle : p.entries.next? = none) :
    (a.iterate run order rounds p).run.run w = (.ok p, w) := by
  unfold iterate
  simp only [idle]
  rfl

/-- One more round of an iteration. -/
theorem run_iterate_next {a : Analysis σ} {run : Nat} {order : List Nat} {before : Nat}
    {p p₁ : Progress} {point : ProgramPoint} {rest : Entries} {w w₁ : World σ}
    (next : p.entries.next? = some (point, rest))
    (worked : (a.work run order ⟨rest, p.iterations + 1, p.unsound⟩ point).run.run w =
      (.ok p₁, w₁)) :
    (a.iterate run order (before + 1) p).run.run w =
      (a.iterate run order before p₁).run.run w₁ := by
  conv_lhs => unfold iterate
  simp only [next]
  exact run_bind_of_ok _ worked

section Layer

variable {setting : Setting σ} (avoids : setting.program.Avoids setting.options.foreignRootName)

include avoids

/-- A round with the layer that succeeds is a round without it. -/
theorem work_layered {run : Nat} {order : List Nat} {p q : Progress} {point : ProgramPoint}
    {w w' : World σ} (each : p.entries.Each Value.Hostless)
    (worked : ((Analysis.mk setting (Dispatcher.base.withLayer Foreign.layer)).work run order p
      point).run.run w = (.ok q, w')) :
    ((Analysis.mk setting .base).work run order p point).run.run w = (.ok q, w') := by
  obtain ⟨entry, block, outcome, m, found, foundBlock, ran, _, rounded⟩ := work_cases worked
  have reads : ∀ node ∈ block.nodes,
      node.operation.readsVariable setting.options.foreignRootName = false :=
    fun node member => avoids node (FlowGraph.mem_nodes foundBlock node member)
  have defers := Dispatcher.transferNodes_layered (m := ⟨w, entry, []⟩) block.index reads
    (each point entry found)
  rcases defers with same | ⟨e, m', failed, fatal⟩
  · have ranBase := same.symm.trans ran
    have transferred := run_transfer (Analysis.mk setting .base) block entry w ranBase
    have transferredLayered := run_transfer _ block entry w ran
    rw [← worked]
    unfold work
    simp only [found]
    rw [run_bind_of_ok _ (run_ofResult foundBlock w), run_bind_of_ok _ (run_ofResult foundBlock w),
      run_bind_of_ok _ transferred, run_bind_of_ok _ transferredLayered]
  · cases failed.symm.trans ran
    have passed := rounded.1
    rw [Error.locate_of_isFatal fatal, fatal] at passed
    cases passed

/-- An iteration with the layer that succeeds is one without it, and the host has no part in it. -/
theorem iterate_layered {run : Nat} {order : List Nat} {rounds : Nat} {p q : Progress}
    {w w' : World σ} (each : p.entries.Each Value.Hostless)
    (iterated : ((Analysis.mk setting (Dispatcher.base.withLayer Foreign.layer)).iterate run order
      rounds p).run.run w = (.ok q, w')) :
    ((Analysis.mk setting .base).iterate run order rounds p).run.run w = (.ok q, w') ∧
      w'.host = w.host ∧ w'.questions = w.questions := by
  induction rounds generalizing p w with
  | zero =>
      rcases iterate_cases iterated with ⟨idle, rfl, rfl⟩ | ⟨_, _, _, _, _, _, none, _⟩
      · exact ⟨run_iterate_idle idle, rfl, rfl⟩
      · cases none
  | succ rounds ih =>
      rcases iterate_cases iterated with ⟨idle, rfl, rfl⟩ |
        ⟨point, rest, before, p₁, w₁, next, same, worked, later⟩
      · exact ⟨run_iterate_idle idle, rfl, rfl⟩
      · cases same
        have held : rest.Each Value.Hostless :=
          fun other e found => each other e (Entries.states_of_next next ▸ found)
        have workedBase := work_layered avoids (p := ⟨rest, _, _⟩) held worked
        obtain ⟨each₁, host₁, questions₁⟩ :=
          of_work_base (fun _ => Value.closed_hostless rfl) rfl (p := ⟨rest, _, _⟩) held workedBase
        obtain ⟨done, host, questions⟩ := ih each₁ later
        exact ⟨(run_iterate_next next workedBase).trans done, host.trans host₁,
          questions.trans questions₁⟩

/-- The layer for host values is a conservative extension: an analysis with it that ends, of a
    program that does not read the root of the host's namespace, gives what the analysis without it
    gives, in the same world. No error was passed over, and the host was not asked: its memory is
    what it was, whatever it would have remembered of a question, and no question was logged. -/
theorem fixedPoint_conservative {w w' : World σ} {result : FixedPoint}
    (done : (Analysis.mk setting (Dispatcher.base.withLayer Foreign.layer)).fixedPoint.run.run w =
      (.ok result, w')) :
    (Analysis.mk setting .base).fixedPoint.run.run w = (.ok result, w') ∧ result.unsound = [] ∧
      w'.host = w.host ∧ w'.questions = w.questions := by
  obtain ⟨run, w₁, reset, rest⟩ := of_run_bind done
  obtain ⟨_, checked, rest⟩ := of_run_ofResult rest
  obtain ⟨main, foundMain, rest⟩ := of_run_ofResult rest
  obtain ⟨order, foundOrder, rest⟩ := of_run_ofResult rest
  obtain ⟨entries, w₂, started, rest⟩ := of_run_bind rest
  obtain ⟨p, w₃, iterated, ended⟩ := of_run_bind rest
  have closed : Value.Closed Value.Hostless .global := Value.closed_hostless rfl
  obtain ⟨each, startHost, startQuestions⟩ := of_start_each closed started
  obtain ⟨iteratedBase, host, questions⟩ := iterate_layered avoids each iterated
  have doneBase : (Analysis.mk setting .base).fixedPoint.run.run w = (.ok result, w') := by
    have startedBase : ((Analysis.mk setting .base).start order main).run.run w₁ =
        (.ok entries, w₂) :=
      start_dispatcher setting _ .base ▸ started
    unfold fixedPoint
    rw [run_bind_of_ok _ reset, run_bind_of_ok _ (run_ofResult checked w₁),
      run_bind_of_ok _ (run_ofResult foundMain w₁), run_bind_of_ok _ (run_ofResult foundOrder w₁),
      run_bind_of_ok _ startedBase, run_bind_of_ok _ iteratedBase]
    exact ended
  cases reset
  cases ended
  exact ⟨doneBase, List.isEmpty_iff.mp (isSound_of_base rfl doneBase), host.trans startHost,
    questions.trans startQuestions⟩

end Layer

end Analysis

/-- A host that counts the questions it is asked. -/
def Host.counting : Host Nat :=
  let answer : HostCall Nat Value := do
    modify (· + 1)
    return .anyNumber
  { propertyValue := fun _ _ => answer
    functionValue := fun _ _ => answer
    call := fun _ _ _ => answer
    setProperty := fun _ _ _ => modify (· + 1)
    construct := fun _ _ => answer
    resume := fun _ => modify (· + 1) }

namespace Analysis

/-- A loop that calls a method of an object and writes the result to its properties, and a function
    that is entered from outside. -/
def methodLoop : Setting Nat where
  host := .counting
  program := .sketch [("f", ["x"])] 3
    [(0, .newObject 0), (0, .writeVariable "o" 0), (2, .readVariable 1 "o"),
      (2, .methodCall (some 2) 1 "m" []), (3, .writeProperty 1 (.fixed "p") 2),
      (3, .readProperty (some 3) 1 (.fixed "p")), (3, .construct 4 1 [3]), (1, .readVariable 0 "x"),
      (4, .foreignMarker 0)]
    [(0, 2), (2, 3), (3, 2), (3, 4)]
  options := {}

/-- The layer meets every kind of node that it has a rule for, and the host counts no question. -/
theorem methodLoop_conservative :
    methodLoop.program.Avoids methodLoop.options.foreignRootName ∧
      ∃ result w',
        (Analysis.mk methodLoop (Dispatcher.base.withLayer Foreign.layer)).fixedPoint.run.run
          ⟨.initial, 0, []⟩ = (.ok result, w') ∧
        (Analysis.mk methodLoop .base).fixedPoint.run.run ⟨.initial, 0, []⟩ = (.ok result, w') ∧
        result.unsound = [] ∧ w'.host = 0 ∧ w'.questions = [] := by
  have avoids : methodLoop.program.Avoids methodLoop.options.foreignRootName := by
    decide +kernel
  have ends : failure? ((Analysis.mk methodLoop
      (Dispatcher.base.withLayer Foreign.layer)).fixedPoint.run.run ⟨.initial, 0, []⟩).1 = none := by
    decide +kernel
  refine ⟨avoids, ?_⟩
  rcases ran : (Analysis.mk methodLoop (Dispatcher.base.withLayer Foreign.layer)).fixedPoint.run.run
    ⟨.initial, 0, []⟩ with ⟨e | result, w'⟩
  · rw [ran] at ends
    cases ends
  · exact ⟨result, w', rfl, fixedPoint_conservative avoids ran⟩

end Analysis

end ScriptHeap
