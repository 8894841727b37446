import ScriptHeap.Proofs.Analysis.Entries
import ScriptHeap.Proofs.Transfer.Simulation

/-!
# The rounds of an analysis

A run that passes over no error is a sequence of visits: the first waiting point leaves the queue,
its block is run on its entry state, and what it delivers flows on (`Trace`). At every moment a
point that was reached waits, or was visited on its present values and everything it delivered then
is still received (`Analysis.Invariant`). When no point waits any more, the second holds of all
points (`Analysis.Trace.outcome`).
-/

namespace ScriptHeap

open Fallible

variable {σ : Type}

/-! ### Deliveries -/

namespace Analysis

/-- The states that a point delivers when its block is run on a state: those that were pushed and,
    unless the rules have handed on the state, the one for every successor. -/
def deliveries (a : Analysis σ) (point : ProgramPoint) (entry : State) :
    Analyzing σ (List Push) := do
  let block ← ofResult (a.setting.program.block point.block)
  let (outcome, s, pushes) ← a.transfer block entry
  match ← ofResult outcome with
  | .done => return pushes
  | .pending =>
    let successors ← ofResult (a.setting.program.successors point.block)
    return pushes ++ successors.map fun block => ⟨s.freezeHeap, ⟨block, point.context⟩⟩

/-- What is delivered after a block has been run. -/
def HandsOn (a : Analysis σ) (point : ProgramPoint) (m : Machine σ) (pushes : List Push) :
    Handover → Prop
  | .done => pushes = m.pushes
  | .pending => ∃ successors, a.setting.program.successors point.block = .ok successors ∧
      pushes = m.pushes ++ successors.map fun block => ⟨m.state.freezeHeap, ⟨block, point.context⟩⟩

theorem of_run_ofResult {α β : Type} {r : Except Error α} {f : α → Analyzing σ β} {w w' : World σ}
    {b : β} (done : (ofResult r >>= f).run.run w = (.ok b, w')) :
    ∃ x, r = .ok x ∧ (f x).run.run w = (.ok b, w') := by
  obtain ⟨x, w₁, found, rest⟩ := of_run_bind done
  obtain ⟨found, same⟩ := Prod.mk.inj (found : (r, w) = (.ok x, w₁))
  exact ⟨x, found, same ▸ rest⟩

/-- A block runs in the world of the analysis, on a machine without pushes. -/
theorem run_transfer (a : Analysis σ) (block : Block) (s : State) (w : World σ)
    {outcome : Except Error Handover} {m : Machine σ}
    (ran : (a.dispatcher.transferBlock a.setting block).run.run ⟨w, s, []⟩ = (outcome, m)) :
    (a.transfer block s).run.run w = (.ok (outcome, m.state, m.pushes), m.toWorld) := by
  have unfolded : ∀ after : Except Error Handover × Machine σ,
      (a.dispatcher.transferBlock a.setting block).run.run ⟨w, s, []⟩ = after →
      (a.transfer block s).run.run w =
        (.ok (after.1, after.2.state, after.2.pushes), after.2.toWorld) := by
    rintro _ rfl
    rfl
  exact unfolded _ ran

variable {a : Analysis σ} {point : ProgramPoint} {entry : State} {w w' : World σ}
  {pushes : List Push}

theorem of_deliveries (delivered : (a.deliveries point entry).run.run w = (.ok pushes, w')) :
    ∃ block handover m, a.setting.program.block point.block = .ok block ∧
      (a.dispatcher.transferBlock a.setting block).run.run ⟨w, entry, []⟩ = (.ok handover, m) ∧
      m.toWorld = w' ∧ a.HandsOn point m pushes handover := by
  obtain ⟨block, found, rest⟩ := of_run_ofResult delivered
  rcases ran : (a.dispatcher.transferBlock a.setting block).run.run ⟨w, entry, []⟩ with ⟨outcome, m⟩
  rw [run_bind_of_ok _ (run_transfer a block entry w ran)] at rest
  obtain ⟨handover, rfl, rest⟩ := of_run_ofResult rest
  cases handover with
  | done =>
      cases rest
      exact ⟨block, .done, m, found, ran, rfl, rfl⟩
  | pending =>
      obtain ⟨successors, known, rest⟩ :=
        of_run_ofResult (r := a.setting.program.successors point.block) rest
      cases rest
      exact ⟨block, .pending, m, found, ran, rfl, successors, known, rfl⟩

theorem run_deliveries {block : Block} {handover : Handover} {m : Machine σ}
    (found : a.setting.program.block point.block = .ok block)
    (ran : (a.dispatcher.transferBlock a.setting block).run.run ⟨w, entry, []⟩ = (.ok handover, m))
    (handsOn : a.HandsOn point m pushes handover) :
    (a.deliveries point entry).run.run w = (.ok pushes, m.toWorld) := by
  have unfolded : (a.deliveries point entry).run.run w =
      (do
        let (outcome, s, pushes) ← a.transfer block entry
        match ← ofResult outcome with
        | .done => return pushes
        | .pending =>
          let successors ← ofResult (a.setting.program.successors point.block)
          return pushes ++ successors.map fun block => ⟨s.freezeHeap, ⟨block, point.context⟩⟩
        : Analyzing σ (List Push)).run.run w := by
    unfold deliveries
    rw [found]
    rfl
  rw [unfolded, run_bind_of_ok _ (run_transfer a block entry w ran)]
  cases handover with
  | done =>
      cases handsOn
      rfl
  | pending =>
      obtain ⟨successors, known, rfl⟩ := handsOn
      simp only [known]
      rfl

/-- What a round makes of the outcome of a block: its deliveries flow on, or an error that is not
    fatal is kept in the list of errors. -/
def Rounded (a : Analysis σ) (run : Nat) (order : List Nat) (p q : Progress) (point : ProgramPoint)
    (m : Machine σ) : Except Error Handover → Prop
  | .ok handover => ∃ pushes, a.HandsOn point m pushes handover ∧
      q = { p with entries := p.entries.flowAll order pushes }
  | .error e => (e.locate run point).isFatal = false ∧
      q = { p with
        entries := p.entries.flowAll order m.pushes
        unsound := p.unsound ++ [e.locate run point] }

/-- A round that succeeds has run the block of its point, and has passed on what the block handed
    on, or noted an error that it may pass over. -/
theorem work_cases {run : Nat} {order : List Nat} {p q : Progress}
    (worked : (a.work run order p point).run.run w = (.ok q, w')) :
    ∃ entry block outcome m, p.entries.states.get? point = some entry ∧
      a.setting.program.block point.block = .ok block ∧
      (a.dispatcher.transferBlock a.setting block).run.run ⟨w, entry, []⟩ = (outcome, m) ∧
      m.toWorld = w' ∧ a.Rounded run order p q point m outcome := by
  unfold work at worked
  cases found : p.entries.states.get? point with
  | none =>
      rw [found] at worked
      cases worked
  | some entry =>
      rw [found] at worked
      obtain ⟨block, foundBlock, rest⟩ := of_run_ofResult worked
      rcases ran : (a.dispatcher.transferBlock a.setting block).run.run ⟨w, entry, []⟩ with
        ⟨outcome, m⟩
      rw [run_bind_of_ok _ (run_transfer a block entry w ran)] at rest
      refine ⟨entry, block, outcome, m, rfl, foundBlock, ran, ?_⟩
      rcases outcome with e | handover
      · dsimp only at rest
        split at rest
        · cases rest
        · rename_i passed
          cases rest
          simp only [Bool.or_eq_true, not_or, Bool.not_eq_true] at passed
          exact ⟨rfl, passed.1, rfl⟩
      · cases handover with
        | done =>
            cases rest
            exact ⟨rfl, m.pushes, rfl, rfl⟩
        | pending =>
            obtain ⟨successors, known, rest⟩ := of_run_ofResult rest
            cases rest
            refine ⟨rfl, _, ⟨successors, known, rfl⟩, ?_⟩
            unfold Entries.flowAll
            rw [List.foldl_append]

/-- A round that passes over no error lets the deliveries flow on. -/
theorem of_work {run : Nat} {order : List Nat} {p q : Progress}
    (worked : (a.work run order p point).run.run w = (.ok q, w')) (sound : q.unsound = []) :
    p.unsound = [] ∧ ∃ entry pushes, p.entries.states.get? point = some entry ∧
      (a.deliveries point entry).run.run w = (.ok pushes, w') ∧
      q.entries = p.entries.flowAll order pushes := by
  obtain ⟨entry, block, outcome, m, found, foundBlock, ran, rfl, rounded⟩ := work_cases worked
  rcases outcome with e | handover
  · obtain ⟨_, rfl⟩ := rounded
    simp at sound
  · obtain ⟨pushes, handsOn, rfl⟩ := rounded
    exact ⟨sound, entry, pushes, found, run_deliveries foundBlock ran handsOn, rfl⟩

/-- An iteration that succeeds ends where no point waits, and otherwise works on the next point and
    goes on. -/
theorem iterate_cases {run : Nat} {order : List Nat} {rounds : Nat} {p q : Progress}
    (iterated : (a.iterate run order rounds p).run.run w = (.ok q, w')) :
    (p.entries.next? = none ∧ q = p ∧ w' = w) ∨
    ∃ point rest before p₁ w₁, p.entries.next? = some (point, rest) ∧ rounds = before + 1 ∧
      (a.work run order ⟨rest, p.iterations + 1, p.unsound⟩ point).run.run w = (.ok p₁, w₁) ∧
      (a.iterate run order before p₁).run.run w₁ = (.ok q, w') := by
  unfold iterate at iterated
  cases next : p.entries.next? with
  | none =>
      simp only [next] at iterated
      cases iterated
      exact .inl ⟨rfl, rfl, rfl⟩
  | some first =>
      obtain ⟨point, rest⟩ := first
      simp only [next] at iterated
      cases rounds with
      | zero => cases iterated
      | succ before =>
          obtain ⟨p₁, w₁, worked, later⟩ := of_run_bind iterated
          exact .inr ⟨point, rest, before, p₁, w₁, rfl, rfl, worked, later⟩

end Analysis

/-! ### Visits -/

namespace Entries

variable {entries rest : Entries} {point : ProgramPoint}

theorem states_of_next (next : entries.next? = some (point, rest)) :
    rest.states = entries.states := by
  unfold next? at next
  split at next
  · cases next
  · cases next
    rfl

/-- Taking the next point leaves the others waiting. -/
theorem waits_of_next (next : entries.next? = some (point, rest)) {other : ProgramPoint}
    (distinct : other ≠ point) (waiting : entries.Waits other) : rest.Waits other := by
  unfold next? at next
  split at next
  · cases next
  · cases next
    obtain ⟨job, member, rfl⟩ := waiting
    refine ⟨job, FinSet.mem_erase.mpr ⟨?_, member⟩, rfl⟩
    rintro rfl
    exact distinct rfl

theorem not_waits_of_next (idle : entries.next? = none) : ¬ entries.Waits point := by
  rintro ⟨job, member, _⟩
  have listed : job ∈ entries.queue.toList := FinSet.mem_toList.mpr member
  unfold next? at idle
  split at idle
  · rename_i empty
    rw [empty] at listed
    cases listed
  · cases idle

theorem Formed.of_states {other : Entries} (formed : entries.Formed)
    (same : other.states = entries.states) : other.Formed := by
  constructor
  · rw [same]
    exact formed.formed
  · rw [same]
    exact formed.context

theorem Receives.of_states {other : Entries} {push : Push} (received : entries.Receives push)
    (same : other.states = entries.states) : other.Receives push := by
  unfold Receives
  rw [same]
  exact received

end Entries

/-- A point that is worked on, with its entry state and the world at that time. -/
structure Visit (σ : Type) where
  point : ProgramPoint
  entry : State
  world : World σ

/-- The last visit of a point. -/
def Visit.last? (visits : List (Visit σ)) (point : ProgramPoint) : Option (Visit σ) :=
  (visits.filter fun visit => visit.point = point).getLast?

/-- The last visit of a point is the newest one of it. -/
theorem Visit.last?_concat (visits : List (Visit σ)) (visit : Visit σ) (point : ProgramPoint) :
    Visit.last? (visits ++ [visit]) point =
      if visit.point = point then some visit else Visit.last? visits point := by
  unfold Visit.last?
  rw [List.filter_append]
  by_cases same : visit.point = point <;> simp [same]

theorem Visit.mem_of_last? {visits : List (Visit σ)} {point : ProgramPoint} {visit : Visit σ}
    (last : Visit.last? visits point = some visit) : visit ∈ visits ∧ visit.point = point := by
  have member := List.mem_of_getLast? last
  simpa using List.mem_filter.mp member

namespace Analysis

/-- The visits of a run that passes over no error, from the entries and the world before the first
    to those after the last. -/
inductive Trace (a : Analysis σ) (order : List Nat) :
    Entries → World σ → List (Visit σ) → Entries → World σ → Prop where
  | idle {entries : Entries} {w : World σ} (none : entries.next? = none) :
      Trace a order entries w [] entries w
  | visit {entries rest last : Entries} {point : ProgramPoint} {entry : State}
      {pushes : List Push} {w w₁ w₂ : World σ} {visits : List (Visit σ)}
      (next : entries.next? = some (point, rest)) (found : rest.states.get? point = some entry)
      (delivered : (a.deliveries point entry).run.run w = (.ok pushes, w₁))
      (later : Trace a order (rest.flowAll order pushes) w₁ visits last w₂) :
      Trace a order entries w (⟨point, entry, w⟩ :: visits) last w₂

/-- The visits of a number of rounds. -/
def history (a : Analysis σ) (order : List Nat) : Nat → Entries → World σ → List (Visit σ)
  | 0, _, _ => []
  | rounds + 1, entries, w =>
    match entries.next? with
    | none => []
    | some (point, rest) =>
      match rest.states.get? point with
      | none => []
      | some entry =>
        ⟨point, entry, w⟩ ::
          match (a.deliveries point entry).run.run w with
          | (.ok pushes, w₁) => a.history order rounds (rest.flowAll order pushes) w₁
          | (.error _, _) => []

/-- Rounds that pass over no error are a run of visits. -/
theorem of_iterate {a : Analysis σ} {run : Nat} {order : List Nat} {rounds : Nat} {p q : Progress}
    {w w' : World σ} (iterated : (a.iterate run order rounds p).run.run w = (.ok q, w'))
    (sound : q.unsound = []) :
    p.unsound = [] ∧
      a.Trace order p.entries w (a.history order rounds p.entries w) q.entries w' := by
  induction rounds generalizing p w with
  | zero =>
      rcases iterate_cases iterated with ⟨idle, rfl, rfl⟩ | ⟨_, _, _, _, _, _, rounds, _⟩
      · exact ⟨sound, .idle idle⟩
      · cases rounds
  | succ rounds ih =>
      rcases iterate_cases iterated with ⟨idle, rfl, rfl⟩ |
        ⟨point, rest, _, p₁, w₁, next, same, worked, later⟩
      · simp only [history, idle]
        exact ⟨sound, .idle idle⟩
      · cases same
        obtain ⟨sound₁, trace⟩ := ih later
        obtain ⟨sound₀, entry, pushes, found, delivered, flowed⟩ := of_work worked sound₁
        rw [flowed] at trace
        simp only [history, next, found, delivered]
        exact ⟨sound₀, .visit next found delivered trace⟩

/-- What a point delivers is well formed and stays in the context, and the memory of the host stays
    good. -/
def Regular (a : Analysis σ) (good : σ → Prop) : Prop :=
  ∀ point entry w pushes w', entry.WellFormed → entry.context = point.context → good w.host →
    (a.deliveries point entry).run.run w = (.ok pushes, w') →
    good w'.host ∧ Entries.FormedPushes pushes ∧ ∀ push ∈ pushes, push.point.context = point.context

/-- The point was visited on the values it has now, and all that it delivered is received. -/
structure Settled (a : Analysis σ) (entries : Entries) (visit : Visit σ) (e : State) : Prop where
  values : visit.entry.SameValues e
  facts : e.FactsWithin visit.entry
  formed : visit.entry.WellFormed
  context : visit.entry.context = visit.point.context
  received : ∃ pushes w', (a.deliveries visit.point visit.entry).run.run visit.world =
    (.ok pushes, w') ∧ ∀ push ∈ pushes, push.state.WellFormed ∧ entries.Receives push

/-- Every point that was reached waits, or has settled at its last visit. -/
def Invariant (a : Analysis σ) (entries : Entries) (visits : List (Visit σ)) : Prop :=
  ∀ point e, entries.states.get? point = some e →
    entries.Waits point ∨ ∃ visit, Visit.last? visits point = some visit ∧ a.Settled entries visit e

variable {a : Analysis σ} {order : List Nat} {good : σ → Prop}

/-- A visit keeps the invariant. -/
theorem Invariant.visit {entries rest : Entries} {point : ProgramPoint} {entry : State}
    {pushes : List Push} {w w₁ : World σ} {visits : List (Visit σ)} (formed : entries.Formed)
    (invariant : a.Invariant entries visits) (next : entries.next? = some (point, rest))
    (found : rest.states.get? point = some entry)
    (delivered : (a.deliveries point entry).run.run w = (.ok pushes, w₁))
    (formedPushes : Entries.FormedPushes pushes) :
    a.Invariant (rest.flowAll order pushes) (visits ++ [⟨point, entry, w⟩]) := by
  have states := Entries.states_of_next next
  have formedRest : rest.Formed := formed.of_states states
  have grows := Entries.flowAll_grows order formedRest formedPushes
  have received := Entries.flowAll_receives order formedRest formedPushes
  intro other e' found'
  rcases grows.fresh other e' found' with ⟨e, foundBefore⟩ | waiting
  · obtain ⟨e'', found'', grown, kept⟩ := grows.entry other e foundBefore
    obtain rfl : e'' = e' := Option.some.inj (found''.symm.trans found')
    rcases kept with same | waiting
    · by_cases visited : other = point
      · subst visited
        obtain rfl : e = entry := Option.some.inj (foundBefore.symm.trans found)
        refine .inr ⟨_, by rw [Visit.last?_concat, if_pos rfl], ?_⟩
        exact {
          values := same
          facts := grown.facts
          formed := formedRest.formed other e found
          context := formedRest.context other e found
          received := ⟨pushes, w₁, delivered, fun push member =>
            ⟨(formedPushes push member).1, received push member⟩⟩ }
      · rcases invariant other e (states ▸ foundBefore) with waiting | ⟨visit, last, settled⟩
        · exact .inl (grows.waits other (Entries.waits_of_next next visited waiting))
        · refine .inr ⟨visit, by rw [Visit.last?_concat, if_neg (Ne.symm visited), last], ?_⟩
          obtain ⟨older, w', deliveredThen, receivedThen⟩ := settled.received
          refine {
            values := settled.values.trans same
            facts := grown.facts.trans settled.facts
            formed := settled.formed
            context := settled.context
            received := ⟨older, w', deliveredThen, fun push member => ?_⟩ }
          obtain ⟨formedPush, receivedPush⟩ := receivedThen push member
          exact ⟨formedPush, grows.receives formedPush (receivedPush.of_states states)⟩
    · exact .inl waiting
  · exact .inl waiting

/-- What a run of visits leaves behind. -/
structure Trace.Outcome (a : Analysis σ) (good : σ → Prop) (entries : Entries)
    (past visits : List (Visit σ)) (last : Entries) (w' : World σ) : Prop where
  formed : last.Formed
  idle : ∀ point, ¬ last.Waits point
  invariant : a.Invariant last (past ++ visits)
  received : ∀ push : Push, push.state.WellFormed → entries.Receives push → last.Receives push
  memories : ∀ visit ∈ visits, good visit.world.host
  memory : good w'.host

theorem Trace.outcome (regular : a.Regular good) {entries last : Entries} {w w' : World σ}
    {visits : List (Visit σ)} (trace : a.Trace order entries w visits last w')
    (past : List (Visit σ)) (formed : entries.Formed) (invariant : a.Invariant entries past)
    (memory : good w.host) : Trace.Outcome a good entries past visits last w' := by
  induction trace generalizing past with
  | idle none =>
      exact ⟨formed, fun _ => Entries.not_waits_of_next none, by simpa using invariant,
        fun _ _ received => received, nofun, memory⟩
  | @visit entries rest last point entry pushes w w₁ w₂ visits next found delivered later ih =>
      have states := Entries.states_of_next next
      have formedRest : rest.Formed := formed.of_states states
      obtain ⟨memory₁, formedPushes, _⟩ := regular point entry w pushes w₁
        (formedRest.formed point entry found) (formedRest.context point entry found)
        memory delivered
      have grows := Entries.flowAll_grows order formedRest formedPushes
      have after := ih (past ++ [⟨point, entry, w⟩])
        (Entries.flowAll_formed order formedRest formedPushes)
        (invariant.visit formed next found delivered formedPushes) memory₁
      refine ⟨after.formed, after.idle, by simpa using after.invariant, ?_, ?_, after.memory⟩
      · intro push formedPush received
        exact after.received push formedPush
          (grows.receives formedPush (received.of_states states))
      · intro visit member
        rcases List.mem_cons.mp member with rfl | member
        · exact memory
        · exact after.memories visit member

end Analysis

end ScriptHeap
