import ScriptHeap.Proofs.Analysis.EntryValues
import ScriptHeap.Proofs.Transfer.Logic

/-!
# Rounds on contents

With the ordinary rules alone, a round of an analysis depends on nothing but the contents of the
entry states and the queue (`Outline`). The rounds on outlines are those of the analysis
(`Analysis.safe_iterate_base`), and the outline at the start is the same in every world and under
all options. So whether an analysis is cut off depends only on the program and on the number of
rounds that it is allowed (`Analysis.safe_fixedPoint_base`).
-/

namespace ScriptHeap

open Fallible

/-- The contents of the entry states, and the points that wait. -/
structure Outline where
  contents : Lookup ProgramPoint Contents
  queue : FinSet Job

namespace Outline

/-- Nothing is reached. -/
def empty : Outline := ⟨fun _ => none, ∅⟩

open Classical in
/-- Let contents flow into a point, which waits unless it covers them. -/
noncomputable def flow (order : List Nat) (d : Contents) (point : ProgramPoint) (s : Outline) :
    Outline where
  contents := fun other =>
    if other = point then some (((s.contents point).map fun c => c.join d).getD d)
    else s.contents other
  queue :=
    if ∃ c, s.contents point = some c ∧ c.Covers d then s.queue
    else s.queue.insert ⟨Entries.priority order point.block, point⟩

theorem queue_flow_of_covers {order : List Nat} {d : Contents} {point : ProgramPoint} {s : Outline}
    (covers : ∃ c, s.contents point = some c ∧ c.Covers d) :
    (s.flow order d point).queue = s.queue :=
  if_pos covers

theorem queue_flow_of_grows {order : List Nat} {d : Contents} {point : ProgramPoint} {s : Outline}
    (grows : ¬ ∃ c, s.contents point = some c ∧ c.Covers d) :
    (s.flow order d point).queue = s.queue.insert ⟨Entries.priority order point.block, point⟩ :=
  if_neg grows

/-- Let contents flow into some points. -/
noncomputable def flowAll (order : List Nat) (d : Contents) (points : List ProgramPoint)
    (s : Outline) : Outline :=
  points.foldl (fun s point => s.flow order d point) s

/-- Work on the first point that waits. There is no next outline if none waits or if the work
    fails. -/
noncomputable def round (program : FlowGraph) (order : List Nat) (s : Outline) :
    Option Outline := do
  let job ← s.queue.toList.head?
  let c ← s.contents job.point
  let block ← (program.block job.point.block).toOption
  let d ← (c.run program block.nodes).toOption
  let successors ← (program.successors job.point.block).toOption
  return flowAll order d (successors.map fun block => ⟨block, job.point.context⟩)
    { s with queue := s.queue.erase job }

variable {program : FlowGraph} {order : List Nat} {s : Outline}

theorem round_eq {job : Job} {jobs : List Job} {c d : Contents} {block : Block}
    {successors : List Nat} (listed : s.queue.toList = job :: jobs)
    (reached : s.contents job.point = some c)
    (found : program.block job.point.block = .ok block)
    (ran : c.run program block.nodes = .ok d)
    (known : program.successors job.point.block = .ok successors) :
    s.round program order =
      some (flowAll order d (successors.map fun block => ⟨block, job.point.context⟩)
        { s with queue := s.queue.erase job }) := by
  unfold round
  rw [listed]
  show (s.contents job.point).bind _ = _
  rw [reached]
  show ((program.block job.point.block).toOption).bind _ = _
  rw [found]
  show ((c.run program block.nodes).toOption).bind _ = _
  rw [ran]
  show ((program.successors job.point.block).toOption).bind _ = _
  rw [known]
  rfl

/-- What a round does. -/
theorem round_cases {s' : Outline} (done : s.round program order = some s') :
    ∃ job jobs c block d successors, s.queue.toList = job :: jobs ∧
      s.contents job.point = some c ∧ program.block job.point.block = .ok block ∧
      c.run program block.nodes = .ok d ∧
      program.successors job.point.block = .ok successors ∧
      s' = flowAll order d (successors.map fun block => ⟨block, job.point.context⟩)
        { s with queue := s.queue.erase job } := by
  have ofOption : ∀ {α : Type} {r : Except Error α} {a : α}, r.toOption = some a → r = .ok a := by
    intro α r a same
    cases r <;> cases same
    rfl
  obtain ⟨job, first, done⟩ := Option.bind_eq_some_iff.mp done
  obtain ⟨c, reached, done⟩ := Option.bind_eq_some_iff.mp done
  obtain ⟨block, found, done⟩ := Option.bind_eq_some_iff.mp done
  obtain ⟨d, ran, done⟩ := Option.bind_eq_some_iff.mp done
  obtain ⟨successors, known, done⟩ := Option.bind_eq_some_iff.mp done
  cases done
  obtain ⟨jobs, listed⟩ := List.head?_eq_some_iff.mp first
  exact ⟨job, jobs, c, block, d, successors, listed, reached, ofOption found, ofOption ran,
    ofOption known, rfl⟩

/-- The outline after a number of rounds. -/
noncomputable def orbit (program : FlowGraph) (order : List Nat) : Nat → Outline → Option Outline
  | 0, s => some s
  | n + 1, s => (s.round program order).bind (orbit program order n)

end Outline

/-- The contents in which an unknown caller enters a function. -/
def Contents.entered (f : Function) : Contents :=
  (State.entered .initial f false).contents

/-- The outline at the start of an analysis. -/
noncomputable def Outline.start (program : FlowGraph) (order : List Nat) (main : Function) :
    Outline :=
  (program.functions.filter fun f => !f.isMain).foldl
    (fun s f => s.flow order (.entered f) ⟨f.entry, .main⟩)
    (empty.flow order (.initial main.index) ⟨main.entry, .main⟩)

/-- The outline of entries. -/
def Entries.outline (entries : Entries) : Outline :=
  ⟨fun point => (entries.states.get? point).map State.contents, entries.queue⟩

/-! ### Flows -/

namespace Entries

variable (order : List Nat) (entries : Entries)

theorem outline_flow (s : State) (point : ProgramPoint) :
    (entries.flow order s point).outline = entries.outline.flow order s.contents point := by
  have contents : (entries.flow order s point).outline.contents =
      (entries.outline.flow order s.contents point).contents := by
    funext other
    show ((entries.flow order s point).states.get? other).map State.contents =
      if other = point then _ else (entries.states.get? other).map State.contents
    rw [states_flow, FinMap.get?_insert]
    split
    · show some (State.contents _) = some (Option.getD (Option.map _ (Option.map _ _)) _)
      cases found : entries.states.get? point with
      | none => exact congrArg some (State.contents_freezeHeap s)
      | some e => exact congrArg some (State.contents_join e s)
    · rfl
  have queue : (entries.flow order s point).outline.queue =
      (entries.outline.flow order s.contents point).queue := by
    show (entries.flow order s point).queue = _
    cases found : entries.states.get? point with
    | none =>
        rw [flow_of_fresh order found, Outline.queue_flow_of_grows]
        · rfl
        · rintro ⟨c, held, _⟩
          have held : (entries.states.get? point).map State.contents = some c := held
          rw [found] at held
          cases held
    | some e =>
        have covers : (∃ c, entries.outline.contents point = some c ∧ c.Covers s.contents) ↔
            (e.join s).1 = false := by
          rw [State.join_changes_iff_contents]
          show (∃ c, (entries.states.get? point).map State.contents = some c ∧ _) ↔ _
          rw [found]
          simp
        rw [flow_of_reached order found]
        by_cases quiet : (e.join s).1 = false
        · rw [Outline.queue_flow_of_covers (covers.mpr quiet), quiet]
          rfl
        · rw [Outline.queue_flow_of_grows (mt covers.mp quiet), if_pos (by simpa using quiet)]
          rfl
  exact congr (congrArg Outline.mk contents) queue

theorem outline_flowAll (s : State) (points : List ProgramPoint) :
    (entries.flowAll order (points.map fun point => ⟨s, point⟩)).outline =
      entries.outline.flowAll order s.contents points := by
  induction points generalizing entries with
  | nil => rfl
  | cons point rest ih =>
      show (Entries.flowAll (entries.flow order s point) order _).outline =
        Outline.flowAll order s.contents rest (entries.outline.flow order s.contents point)
      rw [← outline_flow]
      exact ih (entries.flow order s point)

end Entries

/-! ### Blocks -/

namespace Dispatcher

variable {σ : Type} (setting : Setting σ) (block : Nat)

/-- The ordinary rules run a block as the steps on contents do, and leave the state to the
    driver. -/
theorem run_transferNodes_base (nodes : List Node) (m : Machine σ) :
    (∀ d, m.state.contents.run setting.program nodes = .ok d →
      ∃ m', (base.transferNodes setting block nodes).run.run m = (.ok .pending, m') ∧
        m'.state.contents = d ∧ m'.pushes = m.pushes) ∧
    ∀ e, m.state.contents.run setting.program nodes = .error e →
      ((base.transferNodes setting block nodes).run.run m).1 = .error e := by
  induction nodes generalizing m with
  | nil =>
      refine ⟨?_, ?_⟩
      · rintro _ ⟨⟩
        exact ⟨m, rfl, rfl, rfl⟩
      · rintro _ ⟨⟩
  | cons node rest ih =>
      rw [Contents.run_cons]
      have ends := Ordinary.run_rule setting node m
      rw [← dispatch_base] at ends
      unfold Transfer.Yields at ends
      cases stepped : m.state.contents.step setting.program node with
      | error e =>
          rw [stepped] at ends
          refine ⟨by rintro _ ⟨⟩, ?_⟩
          rintro _ ⟨⟩
          unfold transferNodes
          rw [run_bind_of_error _ (show _ = (Except.error e, m) from ends)]
      | ok c =>
          rw [stepped] at ends
          obtain ⟨_, m₁, ran, rfl, after⟩ := ends
          obtain ⟨done, failed⟩ := ih m₁
          rw [after.contents, after.pushes] at done
          rw [after.contents] at failed
          unfold transferNodes
          rw [run_bind_of_ok _ (show _ = (Except.ok Handover.pending, m₁) from ran)]
          exact ⟨done, failed⟩

end Dispatcher

/-! ### Rounds -/

theorem FailsOnly.run (program : FlowGraph) (nodes : List Node) (c : Contents) :
    FailsOnly Error.Missing (c.run program nodes) := by
  induction nodes generalizing c with
  | nil => exact .ok c
  | cons node rest ih =>
      rw [Contents.run_cons]
      exact .bind (.step program node c) ih

/-- The error says that the analysis was cut off. -/
def Error.CutOff (e : Error) : Prop := ∃ bound, e = .analysis (.noFixedPoint bound)

theorem Error.Missing.not_cutOff {e : Error} (missing : e.Missing) : ¬ e.CutOff := by
  rintro ⟨bound, rfl⟩
  cases missing

namespace Analysis

variable {σ α : Type} {a : Analysis σ}

/-- A step of an analysis whose errors are of a sort, in any world. -/
abbrev Fails (E : Error → Prop) (x : Analyzing σ α) (P : α → Prop) : Prop :=
  Fallible.Safe (fun _ : World σ => True) E x P

theorem safe_transfer_base (base : a.dispatcher = .base) (block : Block) (s : State) :
    Fails (fun _ => False) (a.transfer block s) fun (outcome, s', pushes) =>
      (∃ d, s.contents.run a.setting.program block.nodes = .ok d ∧ outcome = .ok .pending ∧
        s'.contents = d ∧ pushes = []) ∨
      ∃ e, s.contents.run a.setting.program block.nodes = .error e ∧ outcome = .error e := by
  intro w _
  obtain ⟨done, failed⟩ :=
    Dispatcher.run_transferNodes_base a.setting block.index block.nodes ⟨w, s, []⟩
  rcases ran : (a.dispatcher.transferBlock a.setting block).run.run ⟨w, s, []⟩ with ⟨outcome, m⟩
  rw [run_transfer a block s w ran]
  unfold Dispatcher.transferBlock at ran
  rw [base] at ran
  rw [ran] at done failed
  refine ⟨trivial, ?_, ?_⟩
  · rintro _ ⟨⟩
    cases result : s.contents.run a.setting.program block.nodes with
    | error e => exact .inr ⟨e, rfl, failed e result⟩
    | ok d =>
        obtain ⟨m', same, contents, pushes⟩ := done d result
        cases same
        exact .inl ⟨d, rfl, rfl, contents, pushes⟩
  · rintro _ ⟨⟩

/-- A round of the analysis is a round on contents. -/
theorem safe_work_base (base : a.dispatcher = .base) (run : Nat) (order : List Nat)
    {entries rest : Entries} {point : ProgramPoint} (reached : entries.Reached)
    (next : entries.next? = some (point, rest)) (iterations : Nat) (unsound : List Error) :
    Fails Error.Missing (a.work run order ⟨rest, iterations, unsound⟩ point) fun q =>
      entries.outline.round a.setting.program order = some q.entries.outline ∧
        q.entries.Reached := by
  obtain ⟨entered, reachedRest⟩ := reached.next next
  obtain ⟨job, jobs, listed, rfl, rfl⟩ := Entries.next_cases next
  obtain ⟨entry, found⟩ := Option.isSome_iff_exists.mp entered
  unfold work
  simp only [found]
  refine .bind (.ofResult (fun _ => id) (FailsOnly.block _ _)) fun block known => ?_
  refine .bind ((safe_transfer_base base block entry).mono (fun _ => id) fun _ => False.elim) ?_
  rintro ⟨outcome, s, pushes⟩ (⟨d, ran, rfl, rfl, rfl⟩ | ⟨e, ran, rfl⟩)
  · refine .bind (.ofResult (fun _ => id) (FailsOnly.successors _ _)) fun successors next =>
      .pure ⟨?_, reachedRest.flowAll order _⟩
    have contents : entries.outline.contents job.point = some entry.contents := by
      show (entries.states.get? job.point).map _ = _
      rw [show entries.states.get? job.point = some entry from found]
      rfl
    rw [Outline.round_eq listed contents known ran next, ← State.contents_freezeHeap]
    have flowed := Entries.outline_flowAll order { entries with queue := entries.queue.erase job }
      s.freezeHeap (successors.map fun block => ⟨block, job.point.context⟩)
    rw [List.map_map] at flowed
    exact congrArg some flowed.symm
  · have missing := FailsOnly.run _ _ _ e ran
    dsimp only
    rw [Error.locate_of_isFatal missing.isFatal, missing.isFatal]
    exact .throw missing

/-- The rounds of the analysis are rounds on contents. -/
theorem safe_iterate_base (base : a.dispatcher = .base) (run : Nat) (order : List Nat)
    (rounds : Nat) {p : Progress} (reached : p.entries.Reached) :
    Fails (fun e => e.Missing ∨ e.CutOff ∧
        (p.entries.outline.orbit a.setting.program order rounds).isSome)
      (a.iterate run order rounds p) fun _ => True := by
  induction rounds generalizing p with
  | zero =>
      unfold iterate
      cases p.entries.next? with
      | none => exact .pure trivial
      | some first => exact .throw (.inr ⟨⟨_, rfl⟩, rfl⟩)
  | succ rounds ih =>
      unfold iterate
      cases next : p.entries.next? with
      | none => exact .pure trivial
      | some first =>
          obtain ⟨point, rest⟩ := first
          refine .bind ((safe_work_base base run order reached next _ _).mono (fun _ => id)
            fun _ => .inl) fun q stepped => ?_
          refine (ih stepped.2).mono (fun _ => id) fun e => .imp_right (And.imp_right fun more => ?_)
          show (Option.bind _ _).isSome
          rw [stepped.1]
          exact more

end Analysis

/-! ### Runs -/

theorem State.contents_enterFunction {s s' : State} (same : s.contents = s'.contents)
    (t u : Interner) (f : Function) (arguments : List Value) :
    (s.enterFunction t f arguments).1.contents = (s'.enterFunction u f arguments).1.contents := by
  have shapes := shapes_enterFunction (congrArg Contents.shapes same) t u f arguments
  have rest : ∀ {s : State} {t : Interner},
      (s.enterFunction t f arguments).1.contents.registers = s.contents.registers ∧
      (s.enterFunction t f arguments).1.contents.function = s.contents.function := by
    intro s t
    unfold enterFunction
    split <;> exact ⟨rfl, rfl⟩
  refine Contents.ext ?_ shapes ?_
  · rw [rest.1, rest.1, same]
  · rw [rest.2, rest.2, same]

/-- The error says that a part of the program is missing, or is that of the check. -/
def Error.Stops (program : FlowGraph) (e : Error) : Prop := e.Missing ∨ program.check = .error e

theorem FailsOnly.main (program : FlowGraph) :
    FailsOnly (fun e => program.check = .error e) program.main := by
  intro e failed
  unfold FlowGraph.check
  rw [failed]
  rfl

theorem FailsOnly.check (program : FlowGraph) : FailsOnly (fun e => ¬ e.CutOff) program.check := by
  have main : FailsOnly (fun e => ¬ e.CutOff) program.main := by
    unfold FlowGraph.main
    cases program.functions.head? with
    | some f => exact .ok f
    | none => exact .error nofun
  refine .bind main fun _ => .forM _ fun block => ?_
  refine .bind ((FailsOnly.successors _ _).mono fun _ => Error.Missing.not_cutOff) fun _ => ?_
  unfold Block.check
  cases block.nodes.dropLast.find? fun node => node.kind = .call with
  | some call => exact .error nofun
  | none =>
      dsimp only
      split
      · exact .ok ()
      · split
        · exact .error nofun
        · split
          · exact .error nofun
          · exact .ok ()

theorem Error.Stops.not_cutOff {program : FlowGraph} {e : Error} (stops : e.Stops program) :
    ¬ e.CutOff :=
  stops.elim Error.Missing.not_cutOff (FailsOnly.check program e)

namespace Analysis

variable {σ α : Type} {a : Analysis σ}

theorem fails_interning {f : Interner → α × Interner} {P : α → Prop} (holds : ∀ t, P (f t).1) :
    Fails (fun _ => False) (interning f : Analyzing σ α) P :=
  .modifyGet (fun _ _ => trivial) fun w _ => holds w.interner

theorem safe_startState_contents (f : Function) :
    Fails (fun _ => False) (a.startState f) fun s => s.contents = .initial f.index :=
  fails_interning fun _ => State.contents_initial _ _ _ _

/-- An analysis starts with the same contents in every world. -/
theorem safe_start_outline (order : List Nat) (main : Function) :
    Fails (fun _ => False) (a.start order main) fun entries =>
      entries.outline = Outline.start a.setting.program order main ∧ entries.Reached := by
  refine .bind (safe_startState_contents main) fun s contents => ?_
  refine Safe.foldlM_foldl
    (R := fun entries outline => Entries.outline entries = outline ∧ entries.Reached)
    (g := fun s f => s.flow order (.entered f) ⟨f.entry, .main⟩)
    (fun f entries outline ⟨same, reached⟩ => ?_) _ ?_
  · refine .bind (safe_startState_contents f) fun s contents => ?_
    refine .bind (fails_interning (P := fun s => State.contents s = .entered f) fun t =>
      State.contents_enterFunction
        (contents.trans (State.contents_initial .initial _ .main false).symm) t _ f _)
      fun s entered => .pure ⟨?_, reached.flow order s _⟩
    rw [Entries.outline_flow, entered, same]
  · refine ⟨?_, Entries.reached_empty.flow order s _⟩
    rw [Entries.outline_flow, contents]
    rfl

/-- An analysis by the ordinary rules that is cut off could go on for as many rounds as it was
    allowed. No other error ends it than that something is missing or the check fails. -/
theorem safe_fixedPoint_base (base : a.dispatcher = .base) :
    Fails (fun e => e.Stops a.setting.program ∨ e.CutOff ∧
        ∃ main order, a.setting.program.main = .ok main ∧
          a.setting.program.graph.reversePostOrder main.entry = .ok order ∧
          ((Outline.start a.setting.program order main).orbit a.setting.program order
            a.setting.options.maxIterations).isSome)
      a.fixedPoint fun _ => True := by
  refine .bind ((fails_interning (P := fun _ => True) fun _ => trivial).mono (fun _ => id)
    fun _ => False.elim) fun run _ => ?_
  refine .bind (.ofResult (fun _ => id) fun e failed => .inl (.inr failed)) fun _ _ => ?_
  refine .bind (.ofResult (fun _ => id) fun e failed => .inl (.inr (FailsOnly.main _ e failed)))
    fun main found => ?_
  refine .bind (.ofResult (fun _ => id) fun e failed =>
    .inl (.inl (FailsOnly.reversePostOrder _ _ e failed))) fun order ordered => ?_
  refine .bind ((safe_start_outline order main).mono (fun _ => id) fun _ => False.elim)
    fun entries ⟨started, reached⟩ => ?_
  refine .bind ((safe_iterate_base base run order _ reached).mono (fun _ => id) fun e => ?_)
    fun _ _ => .pure trivial
  refine .imp .inl (And.imp_right fun more => ⟨main, order, found, ordered, ?_⟩)
  rw [← started]
  exact more

end Analysis

end ScriptHeap
