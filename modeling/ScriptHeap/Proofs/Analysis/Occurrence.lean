import ScriptHeap.Proofs.Analysis.Start
import ScriptHeap.Proofs.Transfer.Logic

/-!
# The states of a run

A run goes from moment to moment (`Analysis.Passes`): the start states flow into their points one
after the other; when nothing flows any more, the first waiting point has its turn, its block is run
on its entry state, and what it delivers flows on. Runs that fail, and runs that go on after an
error of the host, are runs of this kind too.

The states that occur are those that are stored for a point, those that flow, and those between the
nodes of a block (`Analysis.Occurs`). A property that start states have, and that joins, freezing
and nodes keep, holds of all of them (`Analysis.Persistent.of_occurs`).
-/

namespace ScriptHeap

open Fallible

variable {σ : Type}

/-- A moment of a run. -/
structure Moment (σ : Type) where
  entries : Entries
  /-- The states that have still to flow into their points. -/
  flows : List Push
  /-- How many rounds may follow. -/
  rounds : Nat
  world : World σ

namespace Analysis

/-! ### Moments -/

/-- The states at the starts of the functions, the body first. -/
def starts (a : Analysis σ) (main : Function) (t : Interner) : List Push :=
  a.bodyStart main t ::
    (a.setting.program.functions.filter fun f => !f.isMain).map fun f => a.functionStart f t

/-- The states that flow on after a block has been run at a point, whether it failed or not. -/
def delivered (a : Analysis σ) (point : ProgramPoint) (m : Machine σ) :
    Except Error Handover → List Push
  | .ok .pending =>
    match a.setting.program.successors point.block with
    | .ok successors =>
      m.pushes ++ successors.map fun block => ⟨m.state.freezeHeap, ⟨block, point.context⟩⟩
    | .error _ => m.pushes
  | _ => m.pushes

/-- Whether the run goes on after a block has been run at a point. -/
def goesOn (a : Analysis σ) (run : Nat) (point : ProgramPoint) : Except Error Handover → Bool
  | .ok .done => true
  | .ok .pending => (a.setting.program.successors point.block).isOk
  | .error e => !(e.locate run point).isFatal && a.setting.options.continueOnHostError

/-- The point that has its turn leaves the queue, and its block is to be run on its entry state. -/
structure Turn (a : Analysis σ) (entries rest : Entries) (point : ProgramPoint) (entry : State)
    (block : Block) : Prop where
  next : entries.next? = some (point, rest)
  found : rest.states.get? point = some entry
  held : a.setting.program.block point.block = .ok block

/-- The moments of a run from a world, with the blocks in a given order. -/
inductive Passes (a : Analysis σ) (w : World σ) (order : List Nat) : Moment σ → Prop where
  | start {main : Function} {entries : Entries} {w₁ : World σ}
      (checked : a.setting.program.check = .ok ()) (body : a.setting.program.main = .ok main)
      (ordered : a.setting.program.graph.reversePostOrder main.entry = .ok order)
      (started : (a.start order main).run.run { w with interner := w.interner.reset } =
        (.ok entries, w₁)) :
      Passes a w order
        ⟨.empty, a.starts main w.interner.reset, a.setting.options.maxIterations, w₁⟩
  | flow {entries : Entries} {push : Push} {flows : List Push} {rounds : Nat} {w₁ : World σ}
      (before : Passes a w order ⟨entries, push :: flows, rounds, w₁⟩) :
      Passes a w order ⟨entries.flow order push.state push.point, flows, rounds, w₁⟩
  | round {entries rest : Entries} {rounds : Nat} {w₁ : World σ} {point : ProgramPoint}
      {entry : State} {block : Block} {outcome : Except Error Handover} {m : Machine σ}
      (before : Passes a w order ⟨entries, [], rounds + 1, w₁⟩)
      (turn : a.Turn entries rest point entry block)
      (ran : (a.dispatcher.transferBlock a.setting block).run.run ⟨w₁, entry, []⟩ =
        (outcome, m)) :
      Passes a w order
        ⟨rest, a.delivered point m outcome,
          if a.goesOn w.interner.reset.run point outcome then rounds else 0, m.toWorld⟩

/-- The state is stored as the entry state of a point at some moment of a run. -/
def Stores (a : Analysis σ) (w : World σ) (s : State) : Prop :=
  ∃ order moment point, a.Passes w order moment ∧ moment.entries.states.get? point = some s

/-- The state occurs in a run. -/
inductive Occurs (a : Analysis σ) (w : World σ) : State → Prop where
  | stored {s : State} (stores : a.Stores w s) : Occurs a w s
  | flowing {order : List Nat} {moment : Moment σ} {push : Push}
      (passes : a.Passes w order moment) (member : push ∈ moment.flows) : Occurs a w push.state
  | between {order : List Nat} {entries rest : Entries} {rounds : Nat} {w₁ : World σ}
      {point : ProgramPoint} {entry : State} {block : Block} {nodes left : List Node}
      (passes : a.Passes w order ⟨entries, [], rounds + 1, w₁⟩)
      (turn : a.Turn entries rest point entry block) (cut : block.nodes = nodes ++ left) :
      Occurs a w
        ((a.dispatcher.transferNodes a.setting block.index nodes).run.run ⟨w₁, entry, []⟩).2.state

/-! ### What persists -/

end Analysis

/-- Blocks keep what every node keeps. -/
theorem Dispatcher.holds_transferNodes {I : State → Prop} {d : Dispatcher σ} {setting : Setting σ}
    (dispatch : ∀ node, Fallible.Safe (Machine.Holds I I) (fun _ => True)
      (d.dispatch setting node) fun _ => True) (block : Nat) (nodes : List Node) :
    Fallible.Safe (Machine.Holds I I) (fun _ => True) (d.transferNodes setting block nodes)
      fun _ => True := by
  induction nodes with
  | nil => exact .pure trivial
  | cons node rest ih =>
      refine .bind (dispatch node) fun handover _ => ?_
      cases handover with
      | pending => exact ih
      | done => exact .ite (.pure trivial) (.throw trivial)

namespace Analysis

/-- A property that the start states of an analysis have, and that its steps keep. -/
structure Persistent (a : Analysis σ) (I : State → Prop) : Prop where
  start : ∀ main t, ∀ push ∈ a.starts main t, I push.state
  freeze : ∀ s, I s → I s.freezeHeap
  join : ∀ s t, I s → I t → I (s.join t).2
  dispatch : ∀ node, Fallible.Safe (Machine.Holds I I) (fun _ => True)
    (a.dispatcher.dispatch a.setting node) fun _ => True

namespace Persistent

variable {a : Analysis σ} {I : State → Prop} {w : World σ} {order : List Nat}

theorem transferNodes (persistent : a.Persistent I) {entry : State} (holds : I entry) (block : Nat)
    (nodes : List Node) (w₁ : World σ) :
    ((a.dispatcher.transferNodes a.setting block nodes).run.run ⟨w₁, entry, []⟩).2.Holds I I :=
  (Dispatcher.holds_transferNodes persistent.dispatch block nodes ⟨w₁, entry, []⟩ ⟨holds, nofun⟩).1

theorem delivered (persistent : a.Persistent I) (point : ProgramPoint) {m : Machine σ}
    (holds : m.Holds I I) (outcome : Except Error Handover) :
    ∀ push ∈ a.delivered point m outcome, I push.state := by
  unfold Analysis.delivered
  split
  · split
    · intro push member
      rcases List.mem_append.mp member with pushed | handed
      · exact holds.pushes push pushed
      · obtain ⟨_, _, rfl⟩ := List.mem_map.mp handed
        exact persistent.freeze _ holds.state
    · exact holds.pushes
  · exact holds.pushes

theorem flow (persistent : a.Persistent I) {entries : Entries}
    (stored : ∀ point s, entries.states.get? point = some s → I s) {push : Push}
    (holds : I push.state) {point : ProgramPoint} {s : State}
    (found : (entries.flow order push.state push.point).states.get? point = some s) : I s :=
  Entries.forall_flow (Q := fun _ s => I s) order (fun _ => persistent.freeze)
    (fun _ => persistent.join) stored holds point s found

/-- At every moment the property holds of the stored states and of those that flow. -/
theorem of_passes (persistent : a.Persistent I) {moment : Moment σ}
    (passes : a.Passes w order moment) :
    (∀ point s, moment.entries.states.get? point = some s → I s) ∧
      ∀ push ∈ moment.flows, I push.state := by
  induction passes with
  | start => exact ⟨nofun, persistent.start _ _⟩
  | flow _ ih =>
      obtain ⟨stored, flowing⟩ := ih
      obtain ⟨first, others⟩ := List.forall_mem_cons.mp flowing
      exact ⟨fun _ _ found => persistent.flow stored first found, others⟩
  | @round entries rest rounds w₁ point entry block outcome m _ turn ran ih =>
      have same := Entries.states_of_next turn.next
      have after := persistent.transferNodes (ih.1 point entry (same ▸ turn.found)) block.index
        block.nodes w₁
      have ended : (a.dispatcher.transferNodes a.setting block.index block.nodes).run.run
          ⟨w₁, entry, []⟩ = (outcome, m) := ran
      rw [ended] at after
      exact ⟨fun other s found => ih.1 other s (same ▸ found),
        persistent.delivered point after outcome⟩

/-- A persistent property holds of every state that occurs. -/
theorem of_occurs (persistent : a.Persistent I) {s : State} (occurs : a.Occurs w s) : I s := by
  cases occurs with
  | stored stores =>
      obtain ⟨_, _, point, passes, found⟩ := stores
      exact (persistent.of_passes passes).1 point s found
  | flowing passes member => exact (persistent.of_passes passes).2 _ member
  | between passes turn _ =>
      have same := Entries.states_of_next turn.next
      have entry := (persistent.of_passes passes).1 _ _ (same ▸ turn.found)
      exact (persistent.transferNodes entry _ _ _).state

end Persistent

/-! ### From moments to results -/

variable {a : Analysis σ} {w : World σ} {order : List Nat}

/-- A start state depends on the number of the run and on nothing else that is interned. -/
theorem functionStart_of_run (a : Analysis σ) (f : Function) {t u : Interner}
    (same : t.run = u.run) : a.functionStart f t = a.functionStart f u := by
  unfold functionStart State.entered State.initial State.enterFunction Interner.template
  rw [same]
  split <;> rfl

theorem of_startFunctions_flows {functions : List Function} {entries entries' : Entries}
    {w' : World σ}
    (started : (functions.foldlM
      (fun entries f => do
        let s ← a.startState f
        let arguments := List.replicate f.parameters.length Value.anyPrimitive
        let s ← interning fun t => s.enterFunction t f arguments
        return entries.flow order s ⟨f.entry, .main⟩)
      entries : Analyzing σ Entries).run.run w = (.ok entries', w')) {t : Interner}
    (same : w.interner.run = t.run) :
    entries' = entries.flowAll order (functions.map fun f => a.functionStart f t) := by
  induction functions generalizing entries w with
  | nil =>
      cases started
      rfl
  | cons f rest ih =>
      rw [List.foldlM_cons] at started
      obtain ⟨entries₁, w₁, first, later⟩ := of_run_bind started
      cases first
      have run : (((State.initial w.interner f.index .main
          a.setting.options.copyOnWriteDisabled).1.enterFunction
          (State.initial w.interner f.index .main a.setting.options.copyOnWriteDisabled).2 f
          (List.replicate f.parameters.length .anyPrimitive)).2).run = t.run := by
        unfold State.enterFunction
        split <;> exact same
      rw [List.map_cons, ← a.functionStart_of_run f same]
      exact ih later run

/-- The start lets the start states flow in. -/
theorem of_start_flows {main : Function} {entries : Entries} {w' : World σ}
    (started : (a.start order main).run.run w = (.ok entries, w')) :
    entries = Entries.empty.flowAll order (a.starts main w.interner) := by
  obtain ⟨s, w₁, first, later⟩ := of_run_bind started
  cases first
  exact of_startFunctions_flows later rfl

theorem Passes.flowAll {entries : Entries} {flows : List Push} {rounds : Nat} {w₁ : World σ}
    (passes : a.Passes w order ⟨entries, flows, rounds, w₁⟩) :
    a.Passes w order ⟨entries.flowAll order flows, [], rounds, w₁⟩ := by
  induction flows generalizing entries with
  | nil => exact passes
  | cons push rest ih => exact ih passes.flow

/-- A round passes over an error only where the options let it. -/
theorem continues_of_work {run : Nat} {p q : Progress} {point : ProgramPoint} {w' : World σ}
    {entry : State} {block : Block} {e : Error} {m : Machine σ}
    (worked : (a.work run order p point).run.run w = (.ok q, w'))
    (found : p.entries.states.get? point = some entry)
    (held : a.setting.program.block point.block = .ok block)
    (ran : (a.dispatcher.transferBlock a.setting block).run.run ⟨w, entry, []⟩ = (.error e, m)) :
    a.setting.options.continueOnHostError = true := by
  unfold work at worked
  rw [found] at worked
  obtain ⟨block', held', rest⟩ := of_run_ofResult worked
  cases held.symm.trans held'
  rw [run_bind_of_ok _ (run_transfer a block entry w ran)] at rest
  cases goesOn : a.setting.options.continueOnHostError with
  | true => rfl
  | false =>
      simp only [goesOn, Bool.not_false, Bool.or_true, if_true] at rest
      cases rest

/-- A round that does not fail lets what is delivered flow on. -/
theorem delivered_of_work {run : Nat} {p q : Progress} {point : ProgramPoint} {w' : World σ}
    (worked : (a.work run order p point).run.run w = (.ok q, w')) :
    ∃ entry block outcome m, p.entries.states.get? point = some entry ∧
      a.setting.program.block point.block = .ok block ∧
      (a.dispatcher.transferBlock a.setting block).run.run ⟨w, entry, []⟩ = (outcome, m) ∧
      m.toWorld = w' ∧ a.goesOn run point outcome = true ∧
      q.entries = p.entries.flowAll order (a.delivered point m outcome) := by
  obtain ⟨entry, block, outcome, m, found, held, ran, world, rounded⟩ := work_cases worked
  refine ⟨entry, block, outcome, m, found, held, ran, world, ?_⟩
  rcases outcome with e | handover
  · obtain ⟨notFatal, rfl⟩ := rounded
    have goesOn := continues_of_work worked found held ran
    exact ⟨by simp [Analysis.goesOn, notFatal, goesOn], rfl⟩
  · obtain ⟨pushes, handsOn, rfl⟩ := rounded
    cases handover with
    | done =>
        cases handsOn
        exact ⟨rfl, rfl⟩
    | pending =>
        obtain ⟨successors, known, rfl⟩ := handsOn
        exact ⟨by simp [Analysis.goesOn, known, Except.isOk, Except.toBool],
          by simp [Analysis.delivered, known]⟩

/-- Rounds that do not fail lead from one moment to another. -/
theorem Passes.iterate {rounds : Nat} {p q : Progress} {w₁ w₂ : World σ}
    (passes : a.Passes w order ⟨p.entries, [], rounds, w₁⟩)
    (iterated : (a.iterate w.interner.reset.run order rounds p).run.run w₁ = (.ok q, w₂)) :
    ∃ left, a.Passes w order ⟨q.entries, [], left, w₂⟩ := by
  induction rounds generalizing p w₁ with
  | zero =>
      rcases iterate_cases iterated with ⟨_, rfl, rfl⟩ | ⟨_, _, _, _, _, _, positive, _⟩
      · exact ⟨0, passes⟩
      · cases positive
  | succ rounds ih =>
      rcases iterate_cases iterated with ⟨_, rfl, rfl⟩ |
        ⟨point, rest, _, p₁, w₃, next, same, worked, later⟩
      · exact ⟨rounds + 1, passes⟩
      · cases same
        obtain ⟨entry, block, outcome, m, found, held, ran, rfl, goesOn, flowed⟩ :=
          delivered_of_work worked
        have after := (passes.round ⟨next, found, held⟩ ran).flowAll
        rw [goesOn, if_pos rfl] at after
        exact ih (flowed ▸ after) later

theorem checked_of_fixedPoint {w' : World σ} {result : FixedPoint}
    (done : a.fixedPoint.run.run w = (.ok result, w')) : a.setting.program.check = .ok () := by
  obtain ⟨_, _, _, rest⟩ := of_run_bind done
  obtain ⟨_, checked, _⟩ := of_run_ofResult rest
  exact checked

/-- The entry states of a fixed point are stored in the run that finds it. -/
theorem stores_of_fixedPoint {w' : World σ} {result : FixedPoint}
    (done : a.fixedPoint.run.run w = (.ok result, w')) {point : ProgramPoint} {s : State}
    (found : result.states.get? point = some s) : a.Stores w s := by
  obtain ⟨main, order, entries, w₁, p, body, ordered, started, iterated, rfl⟩ :=
    fixedPoint_cases done
  have passes := (Passes.start (checked_of_fixedPoint done) body ordered started).flowAll
  rw [← of_start_flows started] at passes
  obtain ⟨left, last⟩ := passes.iterate (p := ⟨entries, 0, []⟩) iterated
  exact ⟨order, _, point, last, found⟩

/-- What is seen of the entry state of a point in the fixed point. -/
def settled? {α : Type} (a : Analysis σ) (w : World σ) (point : ProgramPoint)
    (look : State → Option α) : Option α :=
  match (a.fixedPoint.run.run w).1 with
  | .ok result => (result.states.get? point).bind look
  | .error _ => none

theorem of_settled? {α : Type} {point : ProgramPoint} {look : State → Option α} {x : α}
    (seen : a.settled? w point look = some x) :
    ∃ result w' s, a.fixedPoint.run.run w = (.ok result, w') ∧
      result.states.get? point = some s ∧ look s = some x := by
  unfold settled? at seen
  rcases ran : a.fixedPoint.run.run w with ⟨e | result, w'⟩
  · rw [ran] at seen
    cases seen
  · rw [ran] at seen
    obtain ⟨s, found, shown⟩ := Option.bind_eq_some_iff.mp seen
    exact ⟨result, w', s, rfl, found, shown⟩

theorem stores_of_settled? {α : Type} {point : ProgramPoint} {look : State → Option α} {x : α}
    (seen : a.settled? w point look = some x) : ∃ s, a.Stores w s ∧ look s = some x := by
  obtain ⟨result, w', s, ran, found, shown⟩ := of_settled? seen
  exact ⟨s, stores_of_fixedPoint ran found, shown⟩

end Analysis

end ScriptHeap
