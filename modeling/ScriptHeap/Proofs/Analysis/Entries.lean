import ScriptHeap.Analysis.FixedPoint
import ScriptHeap.Proofs.State.Agreement

/-!
# How entry states grow

When a state flows into a point, the entry state of the point comes to cover it and keeps covering
what it covered before, while its facts can only become fewer. A point whose registers or objects
change has to wait; one that does not wait afterwards has kept them (`Entries.Grows`).

Since growing is transitive, the same holds of many states that flow one after the other
(`Entries.flowAll_grows`, `Entries.flowAll_receives`).
-/

namespace ScriptHeap

/-! ### Facts -/

namespace FinMap

variable {κ ν : Type} [Ord κ]

/-- Every entry of the first map is one of the second. -/
def Within (m n : FinMap κ ν) : Prop := ∀ key v, m.get? key = some v → n.get? key = some v

theorem Within.refl (m : FinMap κ ν) : m.Within m := fun _ _ found => found

theorem Within.trans {m n o : FinMap κ ν} (first : m.Within n) (second : n.Within o) : m.Within o :=
  fun key v found => second key v (first key v found)

end FinMap

namespace State

/-- The first state has no fact that the second lacks. -/
structure FactsWithin (s t : State) : Prop where
  mustDefs : s.mustDefs.Within t.mustDefs
  mustEquals : s.mustEquals.Within t.mustEquals

theorem FactsWithin.refl (s : State) : s.FactsWithin s := ⟨.refl _, .refl _⟩

theorem FactsWithin.trans {s t u : State} (first : s.FactsWithin t) (second : t.FactsWithin u) :
    s.FactsWithin u :=
  ⟨first.mustDefs.trans second.mustDefs, first.mustEquals.trans second.mustEquals⟩

/-- The facts that two states agree on are those that both have. -/
theorem get?_agreeing {ν : Type} [DecidableEq ν] {m n : FinMap Register ν} {r : Register} {v : ν} :
    (agreeing m n).get? r = some v ↔ m.get? r = some v ∧ n.get? r = some v := by
  unfold agreeing
  rw [FinMap.get?_filter, Option.filter_eq_some_iff]
  simp only [decide_eq_true_eq]

/-- A join keeps the facts that both sides have. -/
theorem join_factsWithin (s other : State) :
    (s.join other).2.FactsWithin s ∧ (s.join other).2.FactsWithin other := by
  rw [join_eq]
  refine ⟨⟨?_, ?_⟩, ⟨?_, ?_⟩⟩
  · exact fun _ _ found => (get?_agreeing.mp found).1
  · exact fun _ _ found => (get?_agreeing.mp found).1
  · exact fun _ _ found => (get?_agreeing.mp found).2
  · exact fun _ _ found => (get?_agreeing.mp found).2

theorem freezeHeap_factsWithin (s : State) : s.freezeHeap.FactsWithin s := ⟨.refl _, .refl _⟩

/-- The second state differs from the first in its facts at most. -/
def SameValues (s t : State) : Prop :=
  t = { s with mustDefs := t.mustDefs, mustEquals := t.mustEquals }

theorem SameValues.refl (s : State) : s.SameValues s := rfl

theorem SameValues.trans {s t u : State} (first : s.SameValues t) (second : t.SameValues u) :
    s.SameValues u := by
  unfold SameValues at *
  rw [second, first]

/-- The second state covers what the first does, has no further facts and stays in the
    activation. -/
structure GrowsTo (s t : State) : Prop where
  covers : ∀ u, u.WellFormed → s.Covers u → t.Covers u
  facts : t.FactsWithin s
  context : t.context = s.context
  formed : t.WellFormed

theorem GrowsTo.refl {s : State} (formed : s.WellFormed) : s.GrowsTo s :=
  ⟨fun _ _ covered => covered, .refl s, rfl, formed⟩

theorem GrowsTo.trans {s t u : State} (first : s.GrowsTo t) (second : t.GrowsTo u) :
    s.GrowsTo u where
  covers := fun x formed covered => second.covers x formed (first.covers x formed covered)
  facts := second.facts.trans first.facts
  context := second.context.trans first.context
  formed := second.formed

/-- A join has at least the values of the first state, and at most its facts. -/
theorem growsTo_join {s other : State} (formed : s.WellFormed) (formedOther : other.WellFormed) :
    s.GrowsTo (s.join other).2 where
  covers := fun _ formedCovered covered => covered.join formed formedCovered formedOther
  facts := (join_factsWithin s other).1
  context := by rw [join_eq]
  formed := formed.join formedOther

/-- A join that reports no change leaves all but the facts alone. -/
theorem sameValues_join {s other : State} (quiet : (s.join other).1 = false) :
    s.SameValues (s.join other).2 := by
  obtain ⟨registers, heap⟩ := (join_changes_iff.mp quiet).join_eq
  unfold SameValues
  rw [join_eq] at registers heap ⊢
  simp only at registers heap ⊢
  rw [registers, heap]

end State

/-! ### Entries -/

namespace Entries

/-- The point is in the queue. -/
def Waits (entries : Entries) (point : ProgramPoint) : Prop :=
  ∃ job, job ∈ entries.queue ∧ job.point = point

/-- Entry states are well formed and belong to the context of their point. -/
structure Formed (entries : Entries) : Prop where
  formed : ∀ point e, entries.states.get? point = some e → e.WellFormed
  context : ∀ point e, entries.states.get? point = some e → e.context = point.context

/-- The state that was pushed is covered at its point, and has every fact that is left there. -/
def Receives (entries : Entries) (push : Push) : Prop :=
  ∃ target, entries.states.get? push.point = some target ∧ target.Covers push.state ∧
    target.FactsWithin push.state

/-- What was reached stays reached, and a point that does not wait has kept its values. -/
structure Grows (a b : Entries) : Prop where
  waits : ∀ point, a.Waits point → b.Waits point
  entry : ∀ point e, a.states.get? point = some e → ∃ e', b.states.get? point = some e' ∧
    e.GrowsTo e' ∧ (e.SameValues e' ∨ b.Waits point)
  fresh : ∀ point e', b.states.get? point = some e' →
    (∃ e, a.states.get? point = some e) ∨ b.Waits point

theorem Grows.refl {a : Entries} (formed : a.Formed) : a.Grows a where
  waits := fun _ waiting => waiting
  entry := fun point e found => ⟨e, found, .refl (formed.formed point e found), .inl (.refl e)⟩
  fresh := fun _ e found => .inl ⟨e, found⟩

theorem Grows.trans {a b c : Entries} (first : a.Grows b) (second : b.Grows c) : a.Grows c where
  waits := fun point waiting => second.waits point (first.waits point waiting)
  entry := by
    intro point e found
    obtain ⟨e', found', grows, kept⟩ := first.entry point e found
    obtain ⟨e'', found'', grows', kept'⟩ := second.entry point e' found'
    refine ⟨e'', found'', grows.trans grows', ?_⟩
    rcases kept with same | waiting
    · exact kept'.imp_left same.trans
    · exact .inr (second.waits point waiting)
  fresh := by
    intro point e'' found''
    rcases second.fresh point e'' found'' with ⟨e', found'⟩ | waiting
    · rcases first.fresh point e' found' with reached | waiting
      · exact .inl reached
      · exact .inr (second.waits point waiting)
    · exact .inr waiting

/-- What has been received stays received. -/
theorem Grows.receives {a b : Entries} (grows : a.Grows b) {push : Push}
    (formed : push.state.WellFormed) (received : a.Receives push) : b.Receives push := by
  obtain ⟨target, found, covers, facts⟩ := received
  obtain ⟨target', found', grown, _⟩ := grows.entry push.point target found
  exact ⟨target', found', grown.covers push.state formed covers, grown.facts.trans facts⟩

/-! ### Flowing -/

variable {entries : Entries} (order : List Nat) {s : State} {point : ProgramPoint}

/-- A state that flows into a point for the first time is stored frozen, and the point waits. -/
theorem flow_of_fresh (missing : entries.states.get? point = none) :
    entries.flow order s point =
      ({ entries with states := entries.states.insert point s.freezeHeap } : Entries).enqueue order
        point := by
  unfold flow
  rw [missing]

/-- A point that is reached again waits if the join has changed its values. -/
theorem flow_of_reached {e : State} (found : entries.states.get? point = some e) :
    entries.flow order s point =
      if (e.join s).1 then
        ({ entries with states := entries.states.insert point (e.join s).2 } : Entries).enqueue
          order
          point
      else { entries with states := entries.states.insert point (e.join s).2 } := by
  unfold flow
  rw [found]

/-- Whether the point waits or not, it keeps the join. -/
theorem states_flow :
    (entries.flow order s point).states =
      entries.states.insert point
        (match entries.states.get? point with
          | some e => (e.join s).2
          | none => s.freezeHeap) := by
  cases found : entries.states.get? point with
  | none =>
      rw [flow_of_fresh order found]
      rfl
  | some e =>
      rw [flow_of_reached order found]
      split <;> rfl

/-- What freezing and joining keep holds of all entry states, if it holds of the one that flows. -/
theorem forall_flow {Q : ProgramPoint → State → Prop}
    (freeze : ∀ point s, Q point s → Q point s.freezeHeap)
    (join : ∀ point e s, Q point e → Q point s → Q point (e.join s).2)
    (stored : ∀ point e, entries.states.get? point = some e → Q point e) (flowing : Q point s) :
    ∀ other e, (entries.flow order s point).states.get? other = some e → Q other e := by
  intro other e found
  rw [states_flow, FinMap.get?_insert] at found
  split at found
  · rename_i same
    subst same
    cases reached : entries.states.get? other with
    | none =>
        rw [reached] at found
        cases found
        exact freeze other s flowing
    | some old =>
        rw [reached] at found
        cases found
        exact join other old s (stored other old reached) flowing
  · exact stored other e found

/-- A property that freezing and joins keep is kept by all flows. -/
theorem forall_flowAll {Q : ProgramPoint → State → Prop}
    (freeze : ∀ point s, Q point s → Q point s.freezeHeap)
    (join : ∀ point e s, Q point e → Q point s → Q point (e.join s).2)
    (stored : ∀ point e, entries.states.get? point = some e → Q point e) {pushes : List Push}
    (flowing : ∀ push ∈ pushes, Q push.point push.state) :
    ∀ point e, (entries.flowAll order pushes).states.get? point = some e → Q point e := by
  induction pushes generalizing entries with
  | nil => exact stored
  | cons push rest ih =>
      obtain ⟨first, later⟩ := List.forall_mem_cons.mp flowing
      exact ih (forall_flow order freeze join stored first) later

theorem Waits.enqueue {other : ProgramPoint} (waiting : entries.Waits other) :
    (entries.enqueue order point).Waits other := by
  obtain ⟨job, member, same⟩ := waiting
  exact ⟨job, FinSet.mem_insert.mpr (.inr member), same⟩

theorem waits_enqueue : (entries.enqueue order point).Waits point :=
  ⟨_, FinSet.mem_insert.mpr (.inl rfl), rfl⟩

theorem Waits.flow {other : ProgramPoint} (waiting : entries.Waits other) :
    (entries.flow order s point).Waits other := by
  cases found : entries.states.get? point with
  | none =>
      rw [flow_of_fresh order found]
      exact Waits.enqueue order waiting
  | some e =>
      rw [flow_of_reached order found]
      split
      · exact Waits.enqueue order waiting
      · exact waiting

/-- A flow keeps the entry states well formed and in their contexts. -/
theorem flow_formed (formed : entries.Formed) (formedState : s.WellFormed)
    (context : s.context = point.context) : (entries.flow order s point).Formed := by
  have each := forall_flow (Q := fun point e => e.WellFormed ∧ e.context = point.context) order
    (fun _ _ formed => ⟨formed.1.freezeHeap, formed.2⟩)
    (fun _ _ _ own other =>
      have grown := State.growsTo_join own.1 other.1
      ⟨grown.formed, grown.context.trans own.2⟩)
    (fun point e found => ⟨formed.formed point e found, formed.context point e found⟩)
    ⟨formedState, context⟩
  exact ⟨fun other e found => (each other e found).1, fun other e found => (each other e found).2⟩

theorem flow_grows (formed : entries.Formed) (formedState : s.WellFormed) :
    entries.Grows (entries.flow order s point) where
  waits := fun _ waiting => waiting.flow order
  entry := by
    intro other e found
    rw [states_flow, FinMap.get?_insert]
    have formedEntry := formed.formed other e found
    by_cases same : other = point
    · subst same
      refine ⟨(e.join s).2, by simp [found], State.growsTo_join formedEntry formedState, ?_⟩
      cases changed : (e.join s).1 with
      | false => exact .inl (State.sameValues_join changed)
      | true =>
          rw [flow_of_reached order found, if_pos changed]
          exact .inr (waits_enqueue order)
    · exact ⟨e, by simp [same, found], .refl formedEntry, .inl (.refl e)⟩
  fresh := by
    intro other e found
    rw [states_flow, FinMap.get?_insert] at found
    by_cases same : other = point
    · subst same
      cases reached : entries.states.get? other with
      | some old => exact .inl ⟨old, rfl⟩
      | none =>
          rw [flow_of_fresh order reached]
          exact .inr (waits_enqueue order)
    · simp only [same, if_false] at found
      exact .inl ⟨e, found⟩

/-- After a flow the point covers the state, and has no fact that the state lacks. -/
theorem flow_receives (formed : entries.Formed) (formedState : s.WellFormed) :
    (entries.flow order s point).Receives ⟨s, point⟩ := by
  refine ⟨_, by rw [states_flow, FinMap.get?_insert_self], ?_⟩
  cases found : entries.states.get? point with
  | none => exact ⟨State.freezeHeap_covers s, State.freezeHeap_factsWithin s⟩
  | some e =>
      exact ⟨State.covers_join_right (formed.formed point e found) formedState,
        (State.join_factsWithin e s).2⟩

/-- States that are well formed and flow within their context. -/
def FormedPushes (pushes : List Push) : Prop :=
  ∀ push ∈ pushes, push.state.WellFormed ∧ push.state.context = push.point.context

theorem flowAll_formed {pushes : List Push} (formed : entries.Formed)
    (formedPushes : FormedPushes pushes) : (entries.flowAll order pushes).Formed := by
  induction pushes generalizing entries with
  | nil => exact formed
  | cons push rest ih =>
      obtain ⟨formedState, context⟩ := formedPushes push List.mem_cons_self
      exact ih (flow_formed order formed formedState context)
        fun other member => formedPushes other (List.mem_cons_of_mem _ member)

theorem flowAll_grows {pushes : List Push} (formed : entries.Formed)
    (formedPushes : FormedPushes pushes) : entries.Grows (entries.flowAll order pushes) := by
  induction pushes generalizing entries with
  | nil => exact .refl formed
  | cons push rest ih =>
      obtain ⟨formedState, context⟩ := formedPushes push List.mem_cons_self
      have first : entries.Grows (entries.flow order push.state push.point) :=
        flow_grows order formed formedState
      exact first.trans (ih (flow_formed order formed formedState context)
        fun other member => formedPushes other (List.mem_cons_of_mem _ member))

/-- After all flows every point has received what was pushed to it. -/
theorem flowAll_receives {pushes : List Push} (formed : entries.Formed)
    (formedPushes : FormedPushes pushes) :
    ∀ push ∈ pushes, (entries.flowAll order pushes).Receives push := by
  induction pushes generalizing entries with
  | nil => nofun
  | cons push rest ih =>
      obtain ⟨formedState, context⟩ := formedPushes push List.mem_cons_self
      have formedRest : FormedPushes rest := fun other member =>
        formedPushes other (List.mem_cons_of_mem _ member)
      have formedNext := flow_formed order formed formedState context
      intro other member
      rcases List.mem_cons.mp member with rfl | member
      · have received : (entries.flow order other.state other.point).Receives other :=
          flow_receives order formed formedState
        exact (flowAll_grows order formedNext formedRest).receives formedState received
      · exact ih formedNext formedRest other member

end Entries

end ScriptHeap
