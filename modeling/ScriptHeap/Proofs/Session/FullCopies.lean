import ScriptHeap.Proofs.State.Holders

/-!
# Sessions without sharing

`Session.runApart` runs the commands of a session without any sharing: a copy of an object has a
property map of its own, a clone of a state has objects of its own, and so have a new state and a
state that takes over objects of another. Nothing is numbered, and nothing has to be settled, since
every map and every object has one holder (`Session.Apart`).

A session with sharing and one without cannot be told apart. Their views stay the same, step by step
(`Session.Twin.run`) and over a whole script (`Session.Twin.runAll`), and so do all answers and
errors, except that a command may ask who holds a property map.
-/

namespace ScriptHeap

open Fallible

/-! ### Full copies -/

/-- A cell with a full copy of the object, as it is: a frozen object stays frozen. -/
def Cell.deepCopy (cell : Cell) : Cell :=
  ⟨{ cell.object with storage := .owned }, .owned⟩

/-- A full copy of a state: it has objects of its own, with property maps of their own. -/
def State.deepCopy (s : State) : State :=
  { s with heap := s.heap.mapValues Cell.deepCopy }

namespace Session

/-- Store an object under a name, without regard to sharing. -/
def putObject (session : Session) (name : String) (o : HeapObject) : Session :=
  { session with objects := session.objects.insert name o }

/-- Store a state under a name, without regard to sharing. -/
def putState (session : Session) (name : String) (s : State) : Session :=
  { session with states := session.states.insert name s }

theorem get?_putObject (session : Session) (name : String) (o : HeapObject) (other : String) :
    (session.putObject name o).objects.get? other =
      if other = name then some o else session.objects.get? other :=
  FinMap.get?_insert _ _ _ _

theorem get?_putState (session : Session) (name : String) (s : State) (other : String) :
    (session.putState name s).states.get? other =
      if other = name then some s else session.states.get? other :=
  FinMap.get?_insert _ _ _ _

/-- Run a command, with a full copy wherever something is copied, cloned or taken over. -/
def runApart (session : Session) : Command → Except Error (Answer × Session)
  | .newObject name template =>
    .ok (.done, session.putObject name (.ofShape template.shape))
  | .copyObject source name | .deepCopyObject source name => do
    return (.done, session.putObject name (← session.object source).deepCopy)
  | .relabelObject source r name => do
    return (.done, session.putObject name ((← session.object source).relabel r))
  | .joinObjects a b name => do
    return (.done, session.putObject name ((← session.object a).join (← session.object b)))
  | .dropObject name =>
    .ok (.truth (session.objects.contains name),
      { session with objects := session.objects.erase name })
  | .changeObject name change => do
    let changed ← change.apply (← session.object name)
    return (changed.1, session.putObject name changed.2)
  | .restoreObject name caller nodes => do
    let caller ← session.object caller
    let o ← (← session.object name).restore caller nodes
    return (.done, session.putObject name o)
  | .localizeObject name template label => do
    let template ← session.object template
    let localized := (HeapObject.localize Resolver.inFunction template label).run.run
      (← session.object name)
    localized.1
    return (.done, session.putObject name localized.2)
  | .newState name function context copyOnWriteDisabled =>
    let created := State.initial session.interner function context copyOnWriteDisabled
    .ok (.done, { session with interner := created.2 }.putState name created.1.deepCopy)
  | .cloneState source name => do
    return (.done, session.putState name (← session.state source).deepCopy)
  | .changeState name change => do
    let changed := change.apply session.interner (← session.state name)
    let answered ← changed.1
    return (answered.1, { session with interner := changed.2 }.putState name answered.2)
  | .storeCopy name label source frozen | .storeObject name label source frozen => do
    let o := (← session.object source).deepCopy
    let s := (← session.state name).newObject label (if frozen then o.freeze else o)
    return (.done, session.putState name s)
  | .joinStates name other => do
    let other ← session.state other
    let joined := (← session.state name).join other.deepCopy
    return (.truth joined.1, session.putState name joined.2)
  | .reset => .ok (.done, { session with interner := session.interner.reset })

end Session

/-- Whether a command answers who holds a property map. -/
def Command.asksHolders : Command → Bool
  | .changeState _ change => change.asksHolders
  | _ => false

/-- What can be seen of the reply to a command. A question for holders shows only whether it could
    be answered. -/
def Command.visible (c : Command) (reply : Except Error Answer) : Except Error Answer :=
  if c.asksHolders then reply.map fun _ => .done else reply

namespace Session

/-- The reply to a command, and the session after it. A command that fails leaves the session as it
    was. -/
def outcome (session : Session) : Except Error (Answer × Session) → Except Error Answer × Session
  | .ok (answer, next) => (.ok answer, next)
  | .error e => (.error e, session)

/-- Run a script of commands. The result has what can be seen of every reply, in order, and the
    session at the end. -/
def runAll (step : Session → Command → Except Error (Answer × Session)) (session : Session) :
    List Command → List (Except Error Answer) × Session
  | [] => ([], session)
  | c :: rest =>
    let first := session.outcome (step session c)
    let last := runAll step first.2 rest
    (c.visible first.1 :: last.1, last.2)

/-- What one step keeps, a script keeps. -/
theorem runAll_keeps {P : Session → Prop}
    {step : Session → Command → Except Error (Answer × Session)}
    (keeps : ∀ session c answer next, P session → step session c = .ok (answer, next) → P next)
    (script : List Command) {session : Session} (holds : P session) :
    P (session.runAll step script).2 := by
  induction script generalizing session with
  | nil => exact holds
  | cons c rest ih =>
      apply ih
      cases shape : step session c with
      | error e => exact holds
      | ok result => exact keeps session c result.1 result.2 holds shape

end Session

/-! ### Views of sessions -/

/-- What can be seen of a session. -/
structure SessionView where
  interner : Interner
  objects : FinMap String ObjectView
  states : FinMap String StateView

namespace Session

/-- The session without the holders of its objects. -/
def view (session : Session) : SessionView :=
  ⟨session.interner, session.objects.mapValues HeapObject.view, session.states.mapValues State.view⟩

/-- The sessions look the same. -/
def Twin (session other : Session) : Prop := session.view = other.view

namespace Twin

variable {S T : Session}

theorem refl (S : Session) : S.Twin S := rfl

theorem trans {U : Session} (first : S.Twin T) (second : T.Twin U) : S.Twin U :=
  Eq.trans first second

theorem of_fields (interner : S.interner = T.interner)
    (objects : ∀ name, (S.objects.get? name).map HeapObject.view =
      (T.objects.get? name).map HeapObject.view)
    (states : ∀ name, (S.states.get? name).map State.view = (T.states.get? name).map State.view) :
    S.Twin T := by
  unfold Twin view
  rw [interner, FinMap.mapValues_eq_iff.mpr objects, FinMap.mapValues_eq_iff.mpr states]

section Fields

variable (twin : S.Twin T)

include twin

theorem interner : S.interner = T.interner := congrArg SessionView.interner twin

theorem objects :
    S.objects.mapValues HeapObject.view = T.objects.mapValues HeapObject.view :=
  congrArg SessionView.objects twin

theorem states : S.states.mapValues State.view = T.states.mapValues State.view :=
  congrArg SessionView.states twin

theorem object? (name : String) :
    (S.objects.get? name).map HeapObject.view = (T.objects.get? name).map HeapObject.view :=
  FinMap.mapValues_eq_iff.mp twin.objects name

theorem state? (name : String) :
    (S.states.get? name).map State.view = (T.states.get? name).map State.view :=
  FinMap.mapValues_eq_iff.mp twin.states name

theorem object (name : String) : Concur HeapObject.Twin (S.object name) (T.object name) := by
  unfold Session.object
  rcases FinMap.get?_cases_of_mapValues_eq twin.objects name with
    ⟨none, none'⟩ | ⟨o, p, found, found', same⟩
  · rw [none, none']
    exact .error _
  · rw [found, found']
    exact .ok same

theorem state (name : String) : Concur State.Twin (S.state name) (T.state name) := by
  unfold Session.state
  rcases FinMap.get?_cases_of_mapValues_eq twin.states name with
    ⟨none, none'⟩ | ⟨s, t, found, found', same⟩
  · rw [none, none']
    exact .error _
  · rw [found, found']
    exact .ok same

theorem putObject (name : String) {o p : HeapObject} (same : o.Twin p) :
    (S.putObject name o).Twin (T.putObject name p) := by
  refine of_fields twin.interner (fun other => ?_) twin.state?
  rw [get?_putObject, get?_putObject]
  split
  · exact congrArg some same
  · exact twin.object? other

theorem putState (name : String) {s t : State} (same : s.Twin t) :
    (S.putState name s).Twin (T.putState name t) := by
  refine of_fields twin.interner twin.object? (fun other => ?_)
  rw [get?_putState, get?_putState]
  split
  · exact congrArg some same
  · exact twin.state? other

theorem withInterner (i : Interner) :
    ({ S with interner := i } : Session).Twin { T with interner := i } :=
  of_fields rfl twin.object? twin.state?

theorem contains (name : String) : S.objects.contains name = T.objects.contains name := by
  unfold FinMap.contains
  rw [← Option.isSome_map (f := HeapObject.view), twin.object?, Option.isSome_map]

theorem dropObject (name : String) :
    ({ S with objects := S.objects.erase name } : Session).Twin
      { T with objects := T.objects.erase name } := by
  refine of_fields twin.interner (fun other => ?_) twin.state?
  rw [FinMap.get?_erase, FinMap.get?_erase]
  split
  · rfl
  · exact twin.object? other

end Fields

end Twin

/-! ### What the numbering of holders leaves alone -/

theorem get?_settle_objects (S : Session) (name : String) :
    S.settle.objects.get? name = (S.objects.get? name).map fun o =>
      { o with storage := o.storage.settle S.mapHolders } :=
  FinMap.get?_mapValues _ _ _

theorem get?_settle_states (S : Session) (name : String) :
    S.settle.states.get? name = (S.states.get? name).map fun s =>
      { s with heap := s.heap.mapValues fun cell =>
        ⟨{ cell.object with storage := cell.object.storage.settle S.mapHolders },
          cell.storage.settle S.objectHolders⟩ } :=
  FinMap.get?_mapValues _ _ _

/-- Settling changes no view. -/
theorem settle_twin (S : Session) : S.settle.Twin S := by
  refine Twin.of_fields rfl (fun name => ?_) (fun name => ?_)
  · rw [get?_settle_objects, Option.map_map]
    rfl
  · rw [get?_settle_states, Option.map_map]
    congr 1
    funext s
    refine State.Twin.of_fields rfl (fun label => ?_) rfl rfl rfl rfl
    rw [FinMap.get?_mapValues, Option.map_map]
    rfl

end Session

theorem State.deepCopy_twin (s : State) : s.deepCopy.Twin s := by
  refine Twin.of_fields rfl (fun label => ?_) rfl rfl rfl rfl
  have copied : s.deepCopy.heap.get? label = (s.heap.get? label).map Cell.deepCopy :=
    FinMap.get?_mapValues _ _ _
  rw [copied, Option.map_map]
  rfl

namespace Session

/-- What holds of a heap and stays when one of its cells is numbered holds of the numbered heap. -/
theorem shareHeap_induction {heap : FinMap Label Cell} {fresh : Nat}
    {I : FinMap Label Cell → Nat → Prop} (start : I heap fresh)
    (step : ∀ acc n label cell, heap.get? label = some cell → I acc n →
      I (acc.insert label (shareCell cell n).1) (shareCell cell n).2) :
    I (shareHeap heap fresh).1 (shareHeap heap fresh).2 := by
  have loop : ∀ (entries : List (Label × Cell)) (acc : FinMap Label Cell × Nat),
      (∀ entry ∈ entries, heap.get? entry.1 = some entry.2) → I acc.1 acc.2 →
      I (entries.foldl (fun acc entry =>
          (acc.1.insert entry.1 (shareCell entry.2 acc.2).1, (shareCell entry.2 acc.2).2)) acc).1
        (entries.foldl (fun acc entry =>
          (acc.1.insert entry.1 (shareCell entry.2 acc.2).1, (shareCell entry.2 acc.2).2)) acc).2 := by
    intro entries
    induction entries with
    | nil => exact fun _ _ holds => holds
    | cons entry rest ih =>
        intro acc listed holds
        obtain ⟨first, others⟩ := List.forall_mem_cons.mp listed
        exact ih _ others (step acc.1 acc.2 entry.1 entry.2 first holds)
  exact loop heap.toList (heap, fresh) (fun entry member => FinMap.mem_toList_iff.mp member) start

theorem view_shareHeap (heap : FinMap Label Cell) (fresh : Nat) (label : Label) :
    ((shareHeap heap fresh).1.get? label).map Cell.view = (heap.get? label).map Cell.view := by
  refine shareHeap_induction (I := fun acc _ => ∀ label,
    (acc.get? label).map Cell.view = (heap.get? label).map Cell.view) (fun _ => rfl) ?_ label
  intro acc n label cell found same other
  rw [FinMap.get?_insert]
  split
  · rename_i here
    rw [here, found]
    rfl
  · exact same other

namespace Twin

variable {S T : Session} (twin : S.Twin T)

include twin

theorem setObject (name : String) {o p : HeapObject} (same : o.Twin p) :
    (S.setObject name o).Twin (T.putObject name p) :=
  (settle_twin _).trans (twin.putObject name same)

theorem setState (name : String) {s t : State} (same : s.Twin t) :
    (S.setState name s).Twin (T.putState name t) :=
  (settle_twin _).trans (twin.putState name same)

/-- An object is shared on one side and only looked up on the other. -/
theorem sharedObject (name : String) :
    Concur (fun a o => a.1.Twin o ∧ a.2.Twin T) (S.sharedObject name) (T.object name) := by
  unfold Session.sharedObject Session.object
  rcases FinMap.get?_cases_of_mapValues_eq twin.objects name with
    ⟨none, none'⟩ | ⟨o, p, found, found', same⟩
  · rw [none, none']
    exact .error _
  · rw [found, found']
    refine .ok ⟨same, of_fields twin.interner (fun other => ?_) twin.state?⟩
    rw [← twin.object? other]
    simp only [FinMap.get?_insert]
    split
    · rename_i here
      rw [here, found]
      rfl
    · rfl

/-- A state is shared on one side and only looked up on the other. -/
theorem sharedState (name : String) :
    Concur (fun a s => a.1.Twin s ∧ a.2.Twin T) (S.sharedState name) (T.state name) := by
  unfold Session.sharedState Session.state
  rcases FinMap.get?_cases_of_mapValues_eq twin.states name with
    ⟨none, none'⟩ | ⟨s, t, found, found', same⟩
  · rw [none, none']
    exact .error _
  · rw [found, found']
    have shared : ({ s with heap := (shareHeap s.heap S.fresh).1 } : State).Twin s :=
      State.Twin.of_fields rfl (view_shareHeap s.heap S.fresh) rfl rfl rfl rfl
    refine .ok ⟨shared.trans same, of_fields twin.interner twin.object? fun other => ?_⟩
    rw [← twin.state? other]
    simp only [FinMap.get?_insert]
    split
    · rename_i here
      rw [here, found]
      exact congrArg some shared
    · rfl

/-- One command, with sharing on one side and full copies on the other: the errors are equal, or the
    sessions look the same and the answers are equal, unless the command asks for holders. -/
theorem run (c : Command) :
    Concur (fun a b => (c.asksHolders = false → a.1 = b.1) ∧ a.2.Twin b.2)
      (S.run c) (T.runApart c) := by
  cases c with
  | newObject name template => exact .ok ⟨fun _ => rfl, twin.setObject name (.refl _)⟩
  | copyObject source name =>
      -- Numbering the source is a step of the sharing side alone, and changes no view.
      refine .bind (twin.sharedObject source) fun a o same => .ok ⟨fun _ => rfl, ?_⟩
      exact same.2.setObject name (.of_eq same.1.shape rfl)
  | deepCopyObject source name =>
      refine .bind (twin.object source) fun o p same => .ok ⟨fun _ => rfl, ?_⟩
      exact twin.setObject name (.of_eq same.shape rfl)
  | relabelObject source r name =>
      refine .bind (twin.object source) fun o p same => .ok ⟨fun _ => rfl, twin.setObject name ?_⟩
      exact .of_eq (congrArg (·.relabel r) same.shape) rfl
  | joinObjects a b name =>
      refine .bind (twin.object a) fun o p same => .bind (twin.object b) fun o' p' same' => ?_
      refine .ok ⟨fun _ => rfl, twin.setObject name ?_⟩
      exact .of_eq (congrArg₂ Shape.join same.shape same'.shape) rfl
  | dropObject name =>
      refine .ok ⟨fun _ => congrArg Answer.truth (twin.contains name), ?_⟩
      exact (settle_twin _).trans (twin.dropObject name)
  | changeObject name change =>
      refine .bind (twin.object name) fun o p same => .bind (same.change change) ?_
      exact fun a b changed => .ok ⟨fun _ => changed.1, twin.setObject name changed.2⟩
  | restoreObject name caller nodes =>
      refine .bind (twin.object caller) fun o p callers => .bind (twin.object name) ?_
      intro o' p' same
      have restored : Concur HeapObject.Twin (o'.restore o nodes) (p'.restore p nodes) := by
        unfold HeapObject.restore
        rw [callers.shape]
        exact same.changeProperties _
      refine .bind (restored.mapLeft (S := fun a q => a.1 = .done ∧ a.2.Twin q)
        fun _ _ twins => ⟨rfl, twins⟩) ?_
      exact fun a b changed => .ok ⟨fun _ => changed.1, twin.setObject name changed.2⟩
  | localizeObject name template label =>
      refine .bind (twin.object template) fun o p templates => .bind (twin.object name) ?_
      intro o' p' same
      obtain ⟨localized, replies⟩ := HeapObject.Twin.localize .inFunction templates label o' p' same
      refine .bind (replies.mapLeft (S := fun a _ => a.1 = .done ∧
        a.2.Twin ((HeapObject.localize Resolver.inFunction p label).run.run p').2)
        fun _ _ _ => ⟨rfl, localized⟩) ?_
      exact fun a b changed => .ok ⟨fun _ => changed.1, twin.setObject name changed.2⟩
  | newState name function context copyOnWriteDisabled =>
      have interners := twin.interner
      refine .ok ⟨fun _ => rfl, ?_⟩
      unfold State.initial
      rw [interners]
      exact (twin.withInterner _).setState name (State.deepCopy_twin _).symm
  | cloneState source name =>
      refine .bind (twin.sharedState source) fun a s same => .ok ⟨fun _ => rfl, ?_⟩
      exact same.2.setState name (same.1.trans s.deepCopy_twin.symm)
  | changeState name change =>
      refine .bind (twin.state name) fun s t same => ?_
      obtain ⟨interners, changed⟩ := same.change S.interner change
      have sessions : ({ S with interner := (change.apply S.interner s).2 } : Session).Twin
          { T with interner := (change.apply S.interner t).2 } := by
        rw [interners]
        exact twin.withInterner _
      rw [← twin.interner]
      exact .bind changed fun a b answered => .ok ⟨answered.1, sessions.setState name answered.2⟩
  | storeCopy name label source frozen =>
      refine .bind (twin.sharedObject source) fun a p shared => .bind (shared.2.state name) ?_
      intro s t same
      refine .ok ⟨fun _ => rfl, shared.2.setState name (same.newObject label ?_)⟩
      cases frozen with
      | true => exact .of_eq shared.1.shape rfl
      | false => exact .of_eq shared.1.shape rfl
  | storeObject name label source frozen =>
      refine .bind (twin.object source) fun o p objects => .bind (twin.state name) ?_
      intro s t same
      refine .ok ⟨fun _ => rfl, twin.setState name (same.newObject label ?_)⟩
      cases frozen with
      | true => exact .of_eq objects.shape rfl
      | false => exact .of_eq objects.shape rfl
  | joinStates name other =>
      refine .bind (twin.sharedState other) fun a t others => .bind (others.2.state name) ?_
      intro s u same
      obtain ⟨flags, joined⟩ := same.join (others.1.trans t.deepCopy_twin.symm)
      exact .ok ⟨fun _ => congrArg Answer.truth flags, others.2.setState name joined⟩
  | reset =>
      refine .ok ⟨fun _ => rfl, (settle_twin _).trans ?_⟩
      rw [twin.interner]
      exact twin.withInterner _

/-- A whole script, with sharing on one side and full copies on the other: everything that can be
    seen of the replies is equal, and the sessions look the same at the end. -/
theorem runAll (script : List Command) :
    (S.runAll Session.run script).1 = (T.runAll runApart script).1 ∧
      (S.runAll Session.run script).2.Twin (T.runAll runApart script).2 := by
  induction script generalizing S T with
  | nil => exact ⟨rfl, twin⟩
  | cons c rest ih =>
      have step := twin.run c
      have outcomes : c.visible (S.outcome (S.run c)).1 = c.visible (T.outcome (T.runApart c)).1 ∧
          (S.outcome (S.run c)).2.Twin (T.outcome (T.runApart c)).2 := by
        generalize S.run c = r, T.runApart c = r' at step
        cases step with
        -- A command that fails leaves both sessions as they were.
        | error e => exact ⟨rfl, twin⟩
        | @ok a b related =>
            refine ⟨?_, related.2⟩
            unfold Command.visible
            split
            · rfl
            · rename_i blind
              exact congrArg Except.ok (related.1 (Bool.eq_false_iff.mpr blind))
      obtain ⟨replies, last⟩ := ih outcomes.2
      exact ⟨congrArg₂ List.cons outcomes.1 replies, last⟩

end Twin

/-! ### What all objects and cells have in common -/

theorem object_eq_ok_iff {S : Session} {name : String} {o : HeapObject} :
    S.object name = .ok o ↔ S.objects.get? name = some o := by
  unfold object
  cases S.objects.get? name with
  | none => simp
  | some p => simp

theorem state_eq_ok_iff {S : Session} {name : String} {s : State} :
    S.state name = .ok s ↔ S.states.get? name = some s := by
  unfold state
  cases S.states.get? name with
  | none => simp
  | some t => simp

/-- Every named object has a property, and every cell of every state has another. -/
structure Each (Q : HeapObject → Prop) (P : Cell → Prop) (S : Session) : Prop where
  objects : ∀ name o, S.objects.get? name = some o → Q o
  cells : ∀ name s, S.states.get? name = some s → s.EachCell P

namespace Each

variable {Q : HeapObject → Prop} {P : Cell → Prop} {S : Session}

theorem object (each : S.Each Q P) {name : String} {o : HeapObject}
    (found : S.object name = .ok o) : Q o :=
  each.objects name o (object_eq_ok_iff.mp found)

theorem state (each : S.Each Q P) {name : String} {s : State} (found : S.state name = .ok s) :
    s.EachCell P :=
  each.cells name s (state_eq_ok_iff.mp found)

theorem putObject (each : S.Each Q P) (name : String) {o : HeapObject} (holds : Q o) :
    (S.putObject name o).Each Q P := by
  refine ⟨fun other p stored => ?_, each.cells⟩
  rw [get?_putObject] at stored
  split at stored
  · cases stored
    exact holds
  · exact each.objects other p stored

theorem putState (each : S.Each Q P) (name : String) {s : State} (holds : s.EachCell P) :
    (S.putState name s).Each Q P := by
  refine ⟨each.objects, fun other t stored => ?_⟩
  rw [get?_putState] at stored
  split at stored
  · cases stored
    exact holds
  · exact each.cells other t stored

theorem withInterner (each : S.Each Q P) (i : Interner) :
    ({ S with interner := i } : Session).Each Q P :=
  ⟨each.objects, each.cells⟩

theorem dropObject (each : S.Each Q P) (name : String) :
    ({ S with objects := S.objects.erase name } : Session).Each Q P := by
  refine ⟨fun other o stored => ?_, each.cells⟩
  rw [FinMap.get?_erase] at stored
  split at stored
  · cases stored
  · exact each.objects other o stored

end Each

/-! ### Nothing is shared without sharing -/

end Session

/-- Neither the object of the cell nor its property map has another holder. -/
def Cell.Apart (cell : Cell) : Prop :=
  cell.storage = .owned ∧ cell.object.storage = .owned

theorem Cell.closed_apart : Cell.Closed (fun o => o.storage = .owned) Cell.Apart where
  owned owned := owned
  heldAs owned held := held.elim id fun same => same.1.trans owned
  alone owned := ⟨rfl, owned⟩
  object apart := apart.2

theorem State.deepCopy_apart (s : State) : s.deepCopy.EachCell Cell.Apart := by
  intro label cell found
  have copied : s.deepCopy.heap.get? label = (s.heap.get? label).map Cell.deepCopy :=
    FinMap.get?_mapValues _ _ _
  rw [copied] at found
  obtain ⟨old, _, rfl⟩ := Option.map_eq_some_iff.mp found
  exact ⟨rfl, rfl⟩

namespace Session

/-- Every property map and every object of the session has one holder. -/
def Apart (S : Session) : Prop := S.Each (fun o => o.storage = .owned) Cell.Apart

namespace Apart

variable {S S' : Session}

/-- A command without sharing leaves nothing shared. -/
theorem run (apart : S.Apart) {c : Command} {answer : Answer}
    (done : S.runApart c = .ok (answer, S')) : S'.Apart := by
  cases c with
  | newObject name template =>
      cases done
      exact apart.putObject name rfl
  | copyObject source name | deepCopyObject source name | relabelObject source r name =>
      obtain ⟨o, _, done⟩ := of_bind_eq_ok done
      cases done
      exact apart.putObject name rfl
  | joinObjects a b name =>
      obtain ⟨o, _, done⟩ := of_bind_eq_ok done
      obtain ⟨p, _, done⟩ := of_bind_eq_ok done
      cases done
      exact apart.putObject name rfl
  | dropObject name =>
      cases done
      exact apart.dropObject name
  | changeObject name change =>
      obtain ⟨o, found, done⟩ := of_bind_eq_ok done
      obtain ⟨changed, applied, done⟩ := of_bind_eq_ok done
      cases done
      exact apart.putObject name
        (Cell.closed_apart.heldAs (apart.object found) (HeapObject.heldAs_of_apply applied))
  | restoreObject name caller nodes =>
      obtain ⟨o, _, done⟩ := of_bind_eq_ok done
      obtain ⟨p, _, done⟩ := of_bind_eq_ok done
      obtain ⟨q, restored, done⟩ := of_bind_eq_ok done
      cases done
      exact apart.putObject name (HeapObject.owned_of_changeProperties restored)
  | localizeObject name template label =>
      obtain ⟨o, _, done⟩ := of_bind_eq_ok done
      obtain ⟨p, _, done⟩ := of_bind_eq_ok done
      obtain ⟨_, localized, done⟩ := of_bind_eq_ok done
      cases done
      exact apart.putObject name
        (HeapObject.owned_of_localize _ o label (HeapObject.writable_of_localize localized))
  | newState name function context copyOnWriteDisabled =>
      cases done
      exact (apart.withInterner _).putState name (State.deepCopy_apart _)
  | cloneState source name =>
      obtain ⟨s, _, done⟩ := of_bind_eq_ok done
      cases done
      exact apart.putState name s.deepCopy_apart
  | changeState name change =>
      obtain ⟨s, found, done⟩ := of_bind_eq_ok done
      obtain ⟨answered, applied, done⟩ := of_bind_eq_ok done
      cases done
      exact (apart.withInterner _).putState name
        (State.EachCell.change Cell.closed_apart.stable (apart.state found) (fun _ _ => trivial)
          applied)
  | storeCopy name label source frozen | storeObject name label source frozen =>
      obtain ⟨o, _, done⟩ := of_bind_eq_ok done
      obtain ⟨s, found, done⟩ := of_bind_eq_ok done
      cases done
      refine apart.putState name (State.EachCell.newObject Cell.closed_apart.stable
        (apart.state found) label (Cell.closed_apart.alone ?_))
      cases frozen <;> rfl
  | joinStates name other =>
      obtain ⟨t, _, done⟩ := of_bind_eq_ok done
      obtain ⟨s, found, done⟩ := of_bind_eq_ok done
      cases done
      exact apart.putState name
        (State.EachCell.join Cell.closed_apart.stable (apart.state found) t.deepCopy_apart)
  | reset =>
      cases done
      exact apart.withInterner _

end Apart

end Session

end ScriptHeap
