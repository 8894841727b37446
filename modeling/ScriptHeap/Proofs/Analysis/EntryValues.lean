import ScriptHeap.Proofs.Analysis.Start
import ScriptHeap.Proofs.Transfer.Values

/-!
# What entry states hold

A property of values that the ordinary rules keep (`Value.Closed`) holds of everything in the states
in which functions are entered, and flows keep it. So it holds of all entry states of an analysis,
as long as the rules keep it.
-/

namespace ScriptHeap

variable {P : Value → Prop} {label : Label}

/-! ### Start states -/

/-- The contents at the start of a function. -/
def Contents.initial (function : Nat) : Contents where
  registers := fun _ => none
  shapes := fun label => if label = .global then some .absentModified else none
  function := function

namespace State

/-- The state at the start has the same contents whatever the interner knows and however maps are
    copied. -/
theorem contents_initial (t : Interner) (function : Nat) (context : CallString)
    (copyOnWriteDisabled : Bool) :
    (initial t function context copyOnWriteDisabled).1.contents = .initial function := by
  refine Contents.ext rfl (funext fun label => ?_) rfl
  show State.shapes _ label = if label = .global then _ else _
  unfold shapes object? initial
  simp only [FinMap.get?_insert]
  split <;> rfl

/-- All values at the start have a property of slots that new objects have. -/
theorem initial_slots (slots : Value.SlotClosed P) (t : Interner) (function : Nat)
    (context : CallString) (copyOnWriteDisabled : Bool) :
    (initial t function context copyOnWriteDisabled).1.contents.Each P := by
  rw [contents_initial]
  refine ⟨nofun, ?_⟩
  intro holder shape (found : (if holder = .global then _ else _) = _)
  split at found
  · cases found
    exact slots.empty
  · cases found

theorem initial_each (closed : Value.Closed P label) (t : Interner) (function : Nat)
    (context : CallString) (copyOnWriteDisabled : Bool) :
    (initial t function context copyOnWriteDisabled).1.contents.Each P :=
  initial_slots closed.slots t function context copyOnWriteDisabled

/-- Storing an object keeps a property of slots, also where it is joined to another object. -/
theorem newObject_shapes (slots : Value.SlotClosed P) {s : State}
    (each : Lookup.All (Shape.Each P) s.shapes) (made : Label) {o : HeapObject}
    (each' : o.shape.Each P) : Lookup.All (Shape.Each P) (s.newObject made o).shapes := by
  intro holder other found
  rw [shapes_newObject] at found
  dsimp only at found
  by_cases same : holder = made
  · rw [if_pos same] at found
    cases old : s.shapes made with
    | none =>
        rw [old] at found
        cases found
        exact each'
    | some existing =>
        rw [old] at found
        cases found
        exact slots.joined (each made existing old) each'
  · rw [if_neg same] at found
    exact each holder other found

theorem enterFunction_shapes (slots : Value.SlotClosed P)
    (missing : P Value.undefined.joinModified) {s : State}
    (each : Lookup.All (Shape.Each P) s.shapes) (t : Interner) (f : Function)
    {arguments : List Value} (values : ∀ v ∈ arguments, P v.joinModified) :
    Lookup.All (Shape.Each P) (s.enterFunction t f arguments).1.shapes := by
  unfold enterFunction
  split
  · exact each
  · refine newObject_shapes slots (newObject_shapes slots each _ ?_) _ ?_
    · exact slots.empty.foldl_set _ (activation_slot missing values f)
    · exact slots.empty.foldl_set (List.range f.parameters.length)
        fun i _ => argument_slot missing values i

/-- Entering a function with arguments that have a property keeps it for all values of the state. -/
theorem enterFunction_slots (slots : Value.SlotClosed P) (missing : P Value.undefined.joinModified)
    {s : State} (each : s.contents.Each P) (t : Interner) (f : Function) {arguments : List Value}
    (values : ∀ v ∈ arguments, P v.joinModified) :
    (s.enterFunction t f arguments).1.contents.Each P := by
  refine ⟨?_, enterFunction_shapes slots missing each.shapes t f values⟩
  unfold enterFunction
  split <;> exact each.registers

theorem enterFunction_each (closed : Value.Closed P label) {s : State} (each : s.contents.Each P)
    (t : Interner) (f : Function) {arguments : List Value} (values : ∀ v ∈ arguments, P v) :
    (s.enterFunction t f arguments).1.contents.Each P :=
  enterFunction_slots closed.slots (closed.flags _ rfl) each t f
    fun v member => Contents.slotted closed (values v member)

/-- The state that a function is entered with, if nothing is known of its arguments. -/
theorem entered_slots (slots : Value.SlotClosed P) (missing : P Value.undefined.joinModified)
    (primitive : P Value.anyPrimitive.joinModified) (t : Interner) (f : Function)
    (copyOnWriteDisabled : Bool) : (entered t f copyOnWriteDisabled).contents.Each P := by
  refine enterFunction_slots slots missing (initial_slots slots _ _ _ _) _ f ?_
  intro v member
  rw [List.eq_of_mem_replicate member]
  exact primitive

theorem entered_each (closed : Value.Closed P label) (t : Interner) (f : Function)
    (copyOnWriteDisabled : Bool) : (entered t f copyOnWriteDisabled).contents.Each P :=
  entered_slots closed.slots (closed.flags _ rfl) (closed.flags _ rfl) t f copyOnWriteDisabled

end State

/-! ### Entries -/

namespace Entries

/-- Every value in every entry state has the property. -/
def Each (P : Value → Prop) (entries : Entries) : Prop :=
  ∀ point e, entries.states.get? point = some e → e.contents.Each P

/-- Every point that waits has been reached. -/
def Reached (entries : Entries) : Prop :=
  ∀ point, entries.Waits point → (entries.states.get? point).isSome

variable {entries : Entries} (order : List Nat)

/-- A state that flows into a point is joined to what is there, which keeps a closed property. -/
theorem Each.flow (closed : Value.Closed P label) (each : entries.Each P) {s : State}
    (holds : s.contents.Each P) (point : ProgramPoint) : (entries.flow order s point).Each P := by
  refine forall_flow (Q := fun _ e => e.contents.Each P) order (fun _ s each => ?_)
    (fun _ e s own other => ?_) each holds
  · rw [State.contents_freezeHeap]
    exact each
  · rw [State.contents_join]
    exact Contents.Each.join closed own other

theorem Each.flowAll (closed : Value.Closed P label) (each : entries.Each P) {pushes : List Push}
    (holds : ∀ push ∈ pushes, push.state.contents.Each P) :
    (entries.flowAll order pushes).Each P := by
  induction pushes generalizing entries with
  | nil => exact each
  | cons push rest ih =>
      exact ih (each.flow order closed (holds push List.mem_cons_self) push.point)
        fun other member => holds other (List.mem_cons_of_mem _ member)

/-- What has been reached stays reached. -/
theorem isSome_flow {other : ProgramPoint} (reached : (entries.states.get? other).isSome)
    (s : State) (point : ProgramPoint) :
    ((entries.flow order s point).states.get? other).isSome := by
  rw [states_flow, FinMap.get?_insert]
  split
  · rfl
  · exact reached

omit order entries in
theorem reached_empty : Entries.empty.Reached := by
  rintro _ ⟨_, member, _⟩
  cases member

theorem Reached.flow (reached : entries.Reached) (s : State) (point : ProgramPoint) :
    (entries.flow order s point).Reached := by
  intro other waiting
  by_cases same : other = point
  · rw [states_flow, FinMap.get?_insert, if_pos same]
    rfl
  · refine isSome_flow order ?_ s point
    refine reached other ?_
    obtain ⟨job, member, rfl⟩ := waiting
    have enqueued : job ∈ entries.queue.insert ⟨priority order point.block, point⟩ →
        job ∈ entries.queue := by
      intro inserted
      rcases FinSet.mem_insert.mp inserted with rfl | old
      · exact absurd rfl same
      · exact old
    refine ⟨job, ?_, rfl⟩
    cases found : entries.states.get? point with
    | none =>
        rw [flow_of_fresh order found] at member
        exact enqueued member
    | some old =>
        rw [flow_of_reached order found] at member
        split at member
        · exact enqueued member
        · exact member

theorem Reached.flowAll (reached : entries.Reached) (pushes : List Push) :
    (entries.flowAll order pushes).Reached := by
  induction pushes generalizing entries with
  | nil => exact reached
  | cons push rest ih => exact ih (reached.flow order push.state push.point)

omit order in
/-- The next point is the first in the queue. -/
theorem next_cases {point : ProgramPoint} {rest : Entries}
    (next : entries.next? = some (point, rest)) :
    ∃ job jobs, entries.queue.toList = job :: jobs ∧ point = job.point ∧
      rest = { entries with queue := entries.queue.erase job } := by
  unfold next? at next
  cases jobs : entries.queue.toList with
  | nil =>
      simp only [jobs] at next
      cases next
  | cons job others =>
      simp only [jobs] at next
      cases next
      exact ⟨job, others, rfl, rfl, rfl⟩

omit order in
/-- The first point that waits has been reached, and so have the others. -/
theorem Reached.next (reached : entries.Reached) {point : ProgramPoint} {rest : Entries}
    (next : entries.next? = some (point, rest)) :
    (rest.states.get? point).isSome ∧ rest.Reached := by
  obtain ⟨job, jobs, listed, rfl, rfl⟩ := next_cases next
  refine ⟨reached job.point ⟨job, FinSet.mem_toList.mp ?_, rfl⟩, ?_⟩
  · rw [listed]
    exact List.mem_cons_self
  · rintro other ⟨job', member, rfl⟩
    exact reached job'.point ⟨job', (FinSet.mem_erase.mp member).2, rfl⟩

end Entries

end ScriptHeap
