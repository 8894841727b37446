import ScriptHeap.Proofs.Analysis.PostFixpoint
import ScriptHeap.Proofs.Session.Ledger
import ScriptHeap.Proofs.Transfer.Blind
import ScriptHeap.Report.Analysis

/-!
# Copying on write cannot be seen

An analysis that copies objects in full before it changes them and one that lets copies share their
property maps go through the same rounds: their entry states are twins, the same points wait, and
they end with the same error or with the same fixed point (`Analysis.fixedPoint_withCopying`).

With the results about sessions this says that sharing is invisible
(`Session.copyOnWrite_invisible`).
-/

namespace ScriptHeap

open Fallible

/-! ### Entry states -/

/-- Entry states that are twins, and one queue. -/
structure Entries.Twin (E F : Entries) : Prop where
  states : E.states.mapValues State.view = F.states.mapValues State.view
  queue : E.queue = F.queue

namespace Entries.Twin

variable {E F : Entries}

theorem insert (twin : E.Twin F) (point : ProgramPoint) {s t : State} (same : s.Twin t) :
    (⟨E.states.insert point s, E.queue⟩ : Entries).Twin ⟨F.states.insert point t, F.queue⟩ := by
  refine ⟨FinMap.mapValues_eq_iff.mpr fun other => ?_, twin.queue⟩
  simp only [FinMap.get?_insert]
  split
  · exact congrArg some same
  · exact FinMap.mapValues_eq_iff.mp twin.states other

theorem enqueue (twin : E.Twin F) (order : List Nat) (point : ProgramPoint) :
    (E.enqueue order point).Twin (F.enqueue order point) := by
  refine ⟨twin.states, ?_⟩
  unfold Entries.enqueue
  rw [twin.queue]

/-- Twins that flow into twins make the same points wait. -/
theorem flow (twin : E.Twin F) (order : List Nat) {s t : State} (same : s.Twin t)
    (point : ProgramPoint) : (E.flow order s point).Twin (F.flow order t point) := by
  unfold Entries.flow
  rcases FinMap.get?_cases_of_mapValues_eq twin.states point with
    ⟨none, none'⟩ | ⟨entry, entry', found, found', entries⟩
  · rw [none, none']
    exact (twin.insert point same.freezeHeap).enqueue order point
  · rw [found, found']
    obtain ⟨changed, joined⟩ := State.Twin.join entries same
    dsimp only
    rw [changed]
    split
    · exact (twin.insert point joined).enqueue order point
    · exact twin.insert point joined

theorem flowAll (order : List Nat) {ps qs : List Push} (pushes : List.Forall₂ Push.Twin ps qs)
    (twin : E.Twin F) : (E.flowAll order ps).Twin (F.flowAll order qs) := by
  induction pushes generalizing E F with
  | nil => exact twin
  | @cons p q ps qs first _ ih =>
      apply ih
      dsimp only
      rw [first.point]
      exact twin.flow order first.state q.point

end Entries.Twin

/-- Analyses that have come equally far. -/
structure Progress.Twin (p q : Progress) : Prop where
  entries : p.entries.Twin q.entries
  iterations : p.iterations = q.iterations
  unsound : p.unsound = q.unsound

/-- Fixed points that look the same. -/
structure FixedPoint.Twin (r q : FixedPoint) : Prop where
  run : r.run = q.run
  states : r.states.mapValues State.view = q.states.mapValues State.view
  iterations : r.iterations = q.iterations
  unsound : r.unsound = q.unsound

/-- What is reported of the points of fixed points that look the same. -/
theorem FixedPoint.Twin.reports {r q : FixedPoint} (twin : r.Twin q) :
    (r.states.toList.map fun entry => entry.1.reportWith entry.2) =
      q.states.toList.map fun entry => entry.1.reportWith entry.2 := by
  apply FinMap.map_toList_of_mapValues_eq twin.states
  intro point s t same
  unfold ProgramPoint.reportWith
  rw [State.Twin.report same]

/-! ### Rounds -/

namespace Analysis

variable {σ : Type} (a : Analysis σ) (disabled : Bool)

/-- The analysis with objects copied in full before they are changed, or not. -/
def withCopying : Analysis σ := { a with setting := a.setting.withCopying disabled }

variable {a}

theorem lockstep_ofResult {α : Type} (r : Except Error α) :
    Lockstep Eq (ofResult r : Analyzing σ α) (ofResult r) Eq :=
  Lockstep.ofResult (.refl (fun _ => rfl) r)

theorem lockstep_interning {α β : Type} {f : Interner → α × Interner} {g : Interner → β × Interner}
    {R : α → β → Prop} (related : ∀ t, R (f t).1 (g t).1 ∧ (f t).2 = (g t).2) :
    Lockstep Eq (interning f : Analyzing σ α) (interning g) R := by
  apply Lockstep.modifyGet
  rintro w _ rfl
  refine ⟨(related w.interner).1, ?_⟩
  dsimp only
  rw [(related w.interner).2]

/-- The states at the start of a function differ only in how they copy objects. -/
theorem lockstep_startState (f : Function) :
    Lockstep Eq (a.startState f) ((a.withCopying disabled).startState f) State.Twin :=
  lockstep_interning fun _ => ⟨rfl, rfl⟩

theorem lockstep_start (order : List Nat) (main : Function) :
    Lockstep Eq (a.start order main) ((a.withCopying disabled).start order main) Entries.Twin := by
  refine .bind (lockstep_startState disabled main) fun s t same => ?_
  refine .foldlM _ (fun f E F twin => ?_) (Entries.Twin.flow ⟨rfl, rfl⟩ order same _)
  refine .bind (lockstep_startState disabled f) fun s t same => ?_
  refine .bind (lockstep_interning fun i => (same.enterFunction i f _).symm) fun s' t' same' => ?_
  exact .pure (twin.flow order same' _)

variable (standard : a.Standard)

include standard

/-- Running a block on twins. -/
theorem lockstep_transfer (block : Block) {s t : State} (same : s.Twin t) :
    Lockstep Eq (a.transfer block s) ((a.withCopying disabled).transfer block t)
      fun r q => r.1 = q.1 ∧ r.2.1.Twin q.2.1 ∧ List.Forall₂ Push.Twin r.2.2 q.2.2 := by
  have blind : Transfer.Blind (a.dispatcher.transferBlock a.setting block) := by
    rcases standard with base | layered
    · rw [base]
      exact Transfer.Blind.transferNodes (Transfer.Blind.dispatch_base a.setting) _ _
    · rw [layered]
      exact Transfer.Blind.transferNodes (Transfer.Blind.dispatch_layered a.setting) _ _
  have unasked : a.dispatcher.transferBlock (a.setting.withCopying disabled) block =
      a.dispatcher.transferBlock a.setting block := by
    rcases standard with base | layered
    · rw [base]
      exact Dispatcher.transferNodes_withCopying _ _ (Dispatcher.dispatch_base_withCopying _ _) _ _
    · rw [layered]
      exact Dispatcher.transferNodes_withCopying _ _
        (Dispatcher.dispatch_layered_withCopying _ _) _ _
  rintro w _ rfl
  -- Both sides run one transfer, which is blind, on machines that are twins.
  have start : Machine.Twin ⟨w, s, []⟩ ⟨w, t, []⟩ := ⟨rfl, same, .nil⟩
  obtain ⟨twin, concur⟩ := blind _ _ start
  rcases ran : (a.dispatcher.transferBlock a.setting block).run.run ⟨w, s, []⟩ with ⟨outcome, m⟩
  rcases ranOther : (a.dispatcher.transferBlock a.setting block).run.run ⟨w, t, []⟩ with
    ⟨outcome', n⟩
  rw [ran, ranOther] at twin concur
  rw [← unasked] at ranOther
  rw [run_transfer a block s w ran, run_transfer (a.withCopying disabled) block t w ranOther]
  exact ⟨twin.world, .ok ⟨concur.eq, twin.state, twin.pushes⟩⟩

theorem lockstep_work (run : Nat) (order : List Nat) (point : ProgramPoint) {p q : Progress}
    (twin : p.Twin q) :
    Lockstep Eq (a.work run order p point) ((a.withCopying disabled).work run order q point)
      Progress.Twin := by
  unfold work
  rcases FinMap.get?_cases_of_mapValues_eq twin.entries.states point with
    ⟨none, none'⟩ | ⟨entry, entry', found, found', same⟩
  · rw [none, none']
    exact .throw _
  · rw [found, found']
    refine .andThen (lockstep_ofResult _) fun block =>
      .bind (lockstep_transfer disabled standard block same) fun r r' related => ?_
    obtain ⟨outcome, s, pushes⟩ := r
    obtain ⟨outcome', s', pushes'⟩ := r'
    obtain ⟨outcomes, states, pushed⟩ := related
    have flowed := twin.entries.flowAll order pushed
    dsimp only at outcomes states flowed ⊢
    subst outcomes
    cases outcome with
    | error e =>
        refine .ite (.throw _) (.pure ⟨flowed, twin.iterations, ?_⟩)
        rw [twin.unsound]
    | ok handover =>
        cases handover with
        | done => exact .pure ⟨flowed, twin.iterations, twin.unsound⟩
        | pending =>
            refine .andThen (lockstep_ofResult _) fun successors => ?_
            have handedOn : List.Forall₂ Push.Twin
                (successors.map fun block => ⟨s.freezeHeap, ⟨block, point.context⟩⟩)
                (successors.map fun block => ⟨s'.freezeHeap, ⟨block, point.context⟩⟩) := by
              rw [List.forall₂_map_left_iff, List.forall₂_map_right_iff, List.forall₂_same]
              exact fun block _ => ⟨states.freezeHeap, rfl⟩
            exact .pure ⟨flowed.flowAll order handedOn, twin.iterations, twin.unsound⟩

theorem lockstep_iterate (run : Nat) (order : List Nat) (rounds : Nat) {p q : Progress}
    (twin : p.Twin q) :
    Lockstep Eq (a.iterate run order rounds p) ((a.withCopying disabled).iterate run order rounds q)
      Progress.Twin := by
  induction rounds generalizing p q with
  | zero =>
      unfold iterate Entries.next?
      rw [twin.entries.queue]
      cases q.entries.queue.toList with
      | nil => exact .pure twin
      | cons job rest => exact .throw _
  | succ rounds ih =>
      unfold iterate Entries.next?
      rw [twin.entries.queue]
      cases q.entries.queue.toList with
      | nil => exact .pure twin
      | cons job rest =>
          have dequeued : Progress.Twin
              ⟨⟨p.entries.states, q.entries.queue.erase job⟩, p.iterations + 1, p.unsound⟩
              ⟨⟨q.entries.states, q.entries.queue.erase job⟩, q.iterations + 1, q.unsound⟩ :=
            ⟨⟨twin.entries.states, rfl⟩, congrArg (· + 1) twin.iterations, twin.unsound⟩
          exact .bind (lockstep_work disabled standard run order job.point dequeued)
            fun p₁ q₁ twin₁ => ih twin₁

/-- Whether objects are copied in full before they are changed makes no difference to an analysis:
    it ends with the same error, or with fixed points that look the same, and in one world. -/
theorem fixedPoint_withCopying :
    Lockstep Eq a.fixedPoint (a.withCopying disabled).fixedPoint FixedPoint.Twin := by
  refine .andThen (lockstep_interning fun _ => ⟨rfl, rfl⟩) fun run =>
    .andThen (lockstep_ofResult _) fun _ => .andThen (lockstep_ofResult _) fun main =>
    .andThen (lockstep_ofResult _) fun order =>
    .bind (lockstep_start disabled order main) fun E F entries =>
    .bind (lockstep_iterate disabled standard run order _ ⟨entries, rfl, rfl⟩) fun p q twin => ?_
  exact .pure ⟨rfl, twin.entries.states, twin.iterations, twin.unsound⟩

end Analysis

/-! ### Sharing is invisible -/

namespace Session

/-- The replies to a script and the session after it, with sharing. -/
def withSharing (t : Interner) (script : List Command) : List (Except Error Answer) × Session :=
  (start t).runAll run script

/-- The replies to a script and the session after it, with full copies. -/
def withFullCopies (t : Interner) (script : List Command) : List (Except Error Answer) × Session :=
  (start t).runAll runApart script

/-- Sharing cannot be seen.

    A script of commands gets the same answers and errors with sharing as with full copies, where
    nothing is ever shared. Only questions for holders are left out. Afterwards all objects and
    states look the same, and are reported alike. With sharing, holders of one property map have
    equal properties, and holders of one object see the same object.

    A command that writes the property map of an object leaves it unshared. So does a localization,
    whose outcome depends on the looks of the objects alone, also where its resolver refuses.

    An analysis ends with the same error or with fixed points that look the same, and in the same
    world, whether it copies objects in full before it changes them or not. -/
theorem copyOnWrite_invisible (t : Interner) (script : List Command) :
    (withSharing t script).1 = (withFullCopies t script).1 ∧
    (withSharing t script).2.Twin (withFullCopies t script).2 ∧
    (∀ name,
      ((withSharing t script).2.object name).map HeapObject.profile =
        ((withFullCopies t script).2.object name).map HeapObject.profile ∧
      ((withSharing t script).2.state name).map (fun s => (s.report, s.toText)) =
        ((withFullCopies t script).2.state name).map fun s => (s.report, s.toText)) ∧
    (withFullCopies t script).2.Apart ∧
    (withSharing t script).2.Coherent ∧
    (∀ (S S' : Session) (c : Command) (answer : Answer), S.run c = .ok (answer, S') →
      (∀ name ∈ c.writesObject, ∃ o, S'.object name = .ok o ∧ o.isUnshared = true) ∧
      ∀ place ∈ c.writesCells S, ∃ s, S'.state place.1 = .ok s ∧ s.Owns place.2) ∧
    (∀ (resolver : Resolver Id) (template template' o p : HeapObject) (label : Label),
      template.Twin template' → o.Twin p →
      ∃ outcome o' p', (HeapObject.localize resolver template label).run.run o = (outcome, o') ∧
        (HeapObject.localize resolver template' label).run.run p = (outcome, p') ∧ o'.Twin p' ∧
        (o.writable = true → o'.isUnshared = true)) ∧
    ∀ {σ : Type} (a : Analysis σ), a.Standard → ∀ w : World σ,
      ((a.withCopying true).fixedPoint.run.run w).2 =
        ((a.withCopying false).fixedPoint.run.run w).2 ∧
      Concur
        (fun r q => r.Twin q ∧ (r.states.toList.map fun entry => entry.1.reportWith entry.2) =
          q.states.toList.map fun entry => entry.1.reportWith entry.2)
        ((a.withCopying true).fixedPoint.run.run w).1
        ((a.withCopying false).fixedPoint.run.run w).1 := by
  obtain ⟨replies, twin⟩ := (Twin.refl (start t)).runAll script
  refine ⟨replies, twin, fun name => ⟨?_, ?_⟩, ?_, coherent_runAll t script, ?_, ?_, ?_⟩
  · exact ((twin.object name).map fun _ _ same => same.profile).eq
  · refine ((twin.state name).map fun _ _ same => ?_).eq
    rw [same.report, same.toText]
  · exact runAll_keeps (fun _ _ _ _ apart done => Apart.run apart done) script (each_start t _ _)
  · exact fun S S' c answer done => unshared_of_run done
  · intro resolver template template' o p label templates same
    obtain ⟨twins, concur⟩ := HeapObject.Twin.localize resolver templates label o p same
    have owned : o.writable = true → _ := HeapObject.owned_of_localize resolver template label
    rcases ran : (HeapObject.localize resolver template label).run.run o with ⟨outcome, o'⟩
    rcases ranOther : (HeapObject.localize resolver template' label).run.run p with ⟨outcome', p'⟩
    rw [ran, ranOther] at twins concur
    rw [ran] at owned
    obtain rfl : outcome = outcome' := concur.eq
    exact ⟨outcome, o', p', rfl, rfl, twins, fun writable => decide_eq_true (owned writable)⟩
  · intro σ a standard w
    have copied : (a.withCopying true).Standard := standard
    obtain ⟨worlds, concur⟩ := Analysis.fixedPoint_withCopying false copied w w rfl
    exact ⟨worlds, concur.mono fun r q same => ⟨same, same.reports⟩⟩

/-- A copy of an object, one of them in the heap of a state, a clone of the state, and questions for
    the holders of the state's global object before and after a write and a write that is
    refused. -/
def copyAndClone : List Command :=
  [.newObject "a" .absentModified, .changeObject "a" (.setProperty (.name "p") .null),
    .copyObject "a" "b", .newState "s" 0 .main false, .storeCopy "s" (.activation 0) "a" true,
    .cloneState "s" "t", .changeState "t" (.touch .global),
    .changeState "t" (.changeObject .global (.setProperty (.name "q") .null)),
    .changeState "t" (.changeObject (.activation 0) (.setSlot .defaultOther .null)),
    .changeState "t" (.touch .global), .joinStates "s" "t"]

/-- A write to the copy. -/
def writeToCopy : Command := .changeObject "b" (.setProperty (.name "p") .undefined)

/-- The copy shares its property map until it is written, and a full copy does not; nothing else
    tells them apart. -/
theorem copyAndClone_invisible :
    ((withSharing .initial copyAndClone).2.object "b").toOption.map HeapObject.isUnshared =
        some false ∧
      ((withFullCopies .initial copyAndClone).2.object "b").toOption.map HeapObject.isUnshared =
        some true ∧
      (withSharing .initial copyAndClone).1 = (withFullCopies .initial copyAndClone).1 ∧
      (∃ answer S' o, (withSharing .initial copyAndClone).2.run writeToCopy = .ok (answer, S') ∧
        S'.object "b" = .ok o ∧ o.isUnshared = true) ∧
      (∃ outcome o' p',
        (HeapObject.localize .inFunction (.ofShape .none) .global).run.run (.ofShape .unknown) =
          (outcome, o') ∧
        (HeapObject.localize .inFunction (.ofShape .none) .global).run.run
          ⟨.unknown, true, .shared 0⟩ = (outcome, p') ∧ o'.Twin p' ∧ p'.isUnshared = true) ∧
      Analysis.propertyLoop.Standard ∧
      ((Analysis.propertyLoop.withCopying true).fixedPoint.run.run ⟨.initial, (), []⟩).2 =
        ((Analysis.propertyLoop.withCopying false).fixedPoint.run.run ⟨.initial, (), []⟩).2 := by
  obtain ⟨replies, _, _, _, _, unshared, localized, analyses⟩ :=
    copyOnWrite_invisible .initial copyAndClone
  have standard : Analysis.propertyLoop.Standard := .inr rfl
  refine ⟨by decide +kernel, by decide +kernel, replies, ?_, ?_, standard,
    (analyses Analysis.propertyLoop standard _).1⟩
  · have succeeds :
        ((withSharing .initial copyAndClone).2.run writeToCopy).toOption.isSome = true := by
      decide +kernel
    rcases ran : (withSharing .initial copyAndClone).2.run writeToCopy with e | ⟨answer, S'⟩
    · rw [ran] at succeeds
      cases succeeds
    · obtain ⟨o, found, alone⟩ := (unshared _ _ _ _ ran).1 "b" rfl
      exact ⟨answer, S', o, rfl, found, alone⟩
  · obtain ⟨outcome, p', o', ranShared, ranOwned, twins, alone⟩ :=
      localized .inFunction (.ofShape .none) (.ofShape .none) ⟨.unknown, true, .shared 0⟩
        (.ofShape .unknown) .global rfl rfl
    exact ⟨outcome, o', p', ranOwned, ranShared, twins.symm, alone rfl⟩

end Session

end ScriptHeap
