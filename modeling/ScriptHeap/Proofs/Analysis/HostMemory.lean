import ScriptHeap.Proofs.Analysis.PostFixpoint
import ScriptHeap.Proofs.Host.ClassTable

/-!
# Fixed points over a class table

A class table changes while an analysis runs: writes to the fields of host classes widen them. A
point waits again only when its entry state grows, and nothing makes it wait when a field that it
has read is widened. So a fixed point need not be stable with the table that the run leaves behind.

What holds is that every point is stable with the table as it was at its last visit, and with the
last table if the fields that it read at that visit had their last values already.
-/

namespace ScriptHeap

open Fallible

/-! ### Reading fields -/

namespace ClassTable

/-- A host that answers for a field only with the value that another table has for it. -/
def agreeing (B : ClassTable) : Host ClassTable :=
  { host with
    propertyValue := fun className property => do
      let v ← propertyValue className property
      if B.field? className property = some v then return v
      else throw (.ofHost (.noMember className "field" property)) }

theorem of_agreeing {B h h' : ClassTable} {className property : String} {v : Value}
    (answered : (B.agreeing.propertyValue className property).run.run h = (.ok v, h')) :
    (propertyValue className property).run.run h = (.ok v, h') ∧
      B.field? className property = some v := by
  obtain ⟨u, h₁, ran, rest⟩ := of_run_bind answered
  split at rest
  · cases rest
    exact ⟨ran, ‹_›⟩
  · cases rest

variable {A B : ClassTable} {s t : State}

/-- Reads are answered alike if the source answers like its table, and only where this table and the
    other one agree after the same writes. -/
theorem answersReads_of_agree {source : Host ClassTable} (formed : A.All Value.WellFormed)
    (agree : ∀ {className property h v h'},
      (source.propertyValue className property).run.run h = (.ok v, h') →
      (propertyValue className property).run.run h = (.ok v, h') ∧
      ∀ {x : Value} {values : List Value}, A.field? className property = some x →
        (∀ u ∈ values, u.WellFormed) → values.foldl Value.join x = v → x.WellFormed →
        (B.field? className property).map (fun y => values.foldl Value.join y) = some v) :
    AnswersReads (coupling A B s t) source := by
  intro className property h k v h' alike answered
  obtain ⟨ran, agreed⟩ := agree answered
  obtain ⟨held, rfl⟩ := (run_askMember HostClass.fields _ "field").mp ran
  obtain ⟨writes, formedWrites, first, second⟩ := alike
  obtain ⟨x, start, joined⟩ :=
    Option.map_eq_some_iff.mp ((first.field className property).symm.trans held)
  have formedStart : x.WellFormed := by
    obtain ⟨c, foundClass, known⟩ := Option.bind_eq_some_iff.mp start
    exact (formed className c foundClass).fields property x known
  have heldOther : k.field? className property = some v := by
    rw [second.field]
    exact agreed start (formedWrites className property) joined formedStart
  refine ⟨v, _, (run_askMember HostClass.fields _ "field").mpr ⟨heldOther, rfl⟩,
    ⟨writes, formedWrites, first.asked _, second.asked _⟩, rfl, ?_⟩
  rw [← joined]
  exact Value.WellFormed.foldl_join _ formedStart (formedWrites className property)

/-- Tables that started alike answer alike. -/
theorem answersReads_of_same (formed : A.All Value.WellFormed) {source : Host ClassTable}
    (plain : ∀ {className property h v h'},
      (source.propertyValue className property).run.run h = (.ok v, h') →
      (propertyValue className property).run.run h = (.ok v, h')) :
    AnswersReads (coupling A A s t) source := by
  refine answersReads_of_agree formed fun answered => ⟨plain answered, ?_⟩
  intro x values start _ joined _
  rw [start, Option.map_some, joined]

/-- A read that was answered with the value of the other table is answered with it there. The writes
    before it are part of that value, so they do not change it. -/
theorem answersReads_of_agreeing (formed : A.All Value.WellFormed) :
    AnswersReads (coupling A B s t) B.agreeing := by
  refine answersReads_of_agree formed fun answered => ?_
  obtain ⟨ran, held⟩ := of_agreeing answered
  refine ⟨ran, ?_⟩
  intro x values _ formedValues joined formedStart
  rw [held, Option.map_some, ← joined]
  have absorbed := Value.foldl_join_absorbs formedValues formedStart
  rw [Value.foldl_join_eq_self absorbed]

end ClassTable

/-! ### Stability over a class table -/

namespace Analysis

/-- The analysis with another host. -/
def withHost {σ : Type} (a : Analysis σ) (host : Host σ) : Analysis σ :=
  { a with setting := { a.setting with host } }

variable {a : Analysis ClassTable}

/-- The visit can be repeated with every field that is read having the value of a later table. -/
def UpToDate (a : Analysis ClassTable) (visit : Visit ClassTable) (table : ClassTable) : Prop :=
  ∃ pushes w', ((a.withHost table.agreeing).deliveries visit.point visit.entry).run.run
    visit.world = (.ok pushes, w')

/-- Runs of the rules for host values on tables whose reads are answered alike. -/
theorem simulates_of_reads (layered : a.dispatcher = Dispatcher.base.withLayer Foreign.layer)
    (table : a.setting.host = ClassTable.host) {A B : ClassTable} {s t : State}
    (layout : A.SameLayout B) (formed : A.All Value.WellFormed) {source : Host ClassTable}
    (others : ClassTable.ReadsOnly source)
    (reads : ClassTable.AnswersReads (ClassTable.coupling A B s t) source) (node : Node) :
    (ClassTable.coupling A B s t).Simulates
      ((a.withHost source).dispatcher.dispatch (a.withHost source).setting node)
      (a.dispatcher.dispatch a.setting node) Eq := by
  have hosts := ClassTable.hosts_of_reads layout formed others reads
  rw [← table] at hosts
  show Coupling.Simulates _ (a.dispatcher.dispatch (a.withHost source).setting node) _ _
  rw [layered]
  exact .dispatch_layered (a := (a.withHost source).setting) (b := a.setting) ⟨rfl, rfl⟩ hosts node

/-- Runs on tables that started alike. -/
theorem simulates_of_same (layered : a.dispatcher = Dispatcher.base.withLayer Foreign.layer)
    (table : a.setting.host = ClassTable.host) {A : ClassTable} (formed : A.All Value.WellFormed)
    (s t : State) (node : Node) :
    (ClassTable.coupling A A s t).Simulates (a.dispatcher.dispatch a.setting node)
      (a.dispatcher.dispatch a.setting node) Eq := by
  have plain := simulates_of_reads layered table (s := s) (t := t) (.refl A) formed
    (rfl : ClassTable.ReadsOnly ClassTable.host) (ClassTable.answersReads_of_same formed id) node
  rw [← table] at plain
  exact plain

/-- The tables of a run come from its first table by writes. -/
theorem regular_of_table (layered : a.dispatcher = Dispatcher.base.withLayer Foreign.layer)
    (table : a.setting.host = ClassTable.host) {start : ClassTable}
    (formed : start.All Value.WellFormed) :
    a.Regular fun h => ∃ writes : ClassTable.Writes, writes.WellFormed ∧ start.After writes h := by
  refine regular_of_simulates (simulates_of_same layered table formed) ?_ ?_
  · rintro h ⟨writes, formedWrites, after⟩
    exact ⟨writes, formedWrites, after, after⟩
  · rintro h k ⟨writes, formedWrites, after, _⟩
    exact ⟨writes, formedWrites, after⟩

/-- A point that has settled on a visit that is up to date with a table is stable with that
    table. -/
theorem Settled.stableAt_of_upToDate
    (layered : a.dispatcher = Dispatcher.base.withLayer Foreign.layer)
    (table : a.setting.host = ClassTable.host) {entries : Entries} {visit : Visit ClassTable}
    {e : State} (settled : a.Settled entries visit e)
    (formed : visit.world.host.All Value.WellFormed) {B : ClassTable}
    (layout : visit.world.host.SameLayout B) (upToDate : a.UpToDate visit B)
    {world : World ClassTable} (same : world.host.classes = B.classes) :
    a.StableAt entries.states visit.point e world := by
  obtain ⟨checked, w₁, deliveredChecked⟩ := upToDate
  obtain ⟨older, w₂, deliveredThen, received⟩ := settled.received
  have others : ClassTable.ReadsOnly B.agreeing := rfl
  -- The checked run delivers what the visit delivered, and this is received.
  have covered : ∀ push ∈ checked, CoveredIn entries.states push := by
    obtain ⟨pushes, w₃, deliveredAgain, _, coupled⟩ :=
      deliveries_simulated
        (K := ClassTable.coupling visit.world.host visit.world.host visit.entry visit.entry)
        (a := a.withHost B.agreeing) (b := a) ⟨rfl, rfl⟩
        (simulates_of_reads layered table (.refl _) formed others
          (ClassTable.answersReads_of_same formed fun answered =>
            (ClassTable.of_agreeing answered).1))
        (.start settled.formed rfl) settled.context
        ⟨.none, .none, .of_classes rfl, .of_classes rfl⟩ deliveredChecked
    obtain rfl : pushes = older :=
      Except.ok.inj (Prod.mk.inj (deliveredAgain.symm.trans deliveredThen)).1
    intro push member
    obtain ⟨other, listed, pair⟩ := Coupling.Pushes.partner_right _ coupled member
    exact (coveredIn_iff pair).mp (coveredIn_of_receives (received other listed).2)
  obtain ⟨pushes, world', delivered, _, coupled⟩ :=
    deliveries_simulated (K := ClassTable.coupling visit.world.host B visit.entry e)
      (a := a.withHost B.agreeing) (b := a) ⟨rfl, rfl⟩
      (simulates_of_reads layered table layout formed others
        (ClassTable.answersReads_of_agreeing formed))
      (.start settled.formed settled.values) settled.context
      ⟨.none, .none, .of_classes rfl, .of_classes same⟩ deliveredChecked
  refine ⟨pushes, world', delivered, ?_⟩
  rw [← settled.context]
  exact absorbed_of_coupled coupled covered

/-- A sound fixed point over a class table. Every point is stable with the table that it had at its
    last visit. It is stable with the table that the run leaves behind if the fields that were read
    at that visit had the values of this table already. -/
theorem fixedPoint_stable_of_upToDate
    (layered : a.dispatcher = Dispatcher.base.withLayer Foreign.layer)
    (table : a.setting.host = ClassTable.host) {w w' : World ClassTable} {result : FixedPoint}
    (built : w.host.All Value.Built) (done : a.fixedPoint.run.run w = (.ok result, w'))
    (sound : result.isSound = true) :
    ∀ point entry, result.states.get? point = some entry →
      ∃ visit, Visit.last? (a.visits w) point = some visit ∧
        (∀ world, world.host.classes = visit.world.host.classes →
          a.StableAt result.states point entry world) ∧
        (a.UpToDate visit w'.host → ∀ world, world.host.classes = w'.host.classes →
          a.StableAt result.states point entry world) := by
  have formed : w.host.All Value.WellFormed := built.mono fun _ => Value.Built.wellFormed
  obtain ⟨last, run, states⟩ := runs_of_fixedPoint done sound
  obtain ⟨settles, _, _, writes, _, after⟩ := run.outcome (regular_of_table layered table formed)
    ⟨.none, .none, .of_classes rfl⟩
  intro point entry found
  rw [← states] at found ⊢
  obtain ⟨visit, latest, settled, earlier, formedEarlier, before⟩ := settles point entry found
  obtain rfl : visit.point = point := (Visit.mem_of_last? latest).2
  have formedVisit := before.all formed formedEarlier
  refine ⟨visit, latest, fun world same => ?_, fun upToDate world same => ?_⟩
  · exact settled.stableAt (simulates_of_same layered table formedVisit visit.entry entry) world
      ⟨.none, .none, .of_classes rfl, .of_classes same⟩
  · exact settled.stableAt_of_upToDate layered table formedVisit (before.sameLayout after) upToDate
      same

/-! ### Two runs -/

/-- Whether running the block of a point again changes nothing. -/
def quietAt (a : Analysis ClassTable) (states : FinMap ProgramPoint State) (point : ProgramPoint)
    (entry : State) (world : World ClassTable) : Bool :=
  match (a.deliveries point entry).run.run world with
  | (.ok pushes, _) => pushes.all fun push =>
      ((states.get? push.point).map fun target => (target.join push.state).1) = some false
  | (.error _, _) => false

theorem StableAt.quietAt {states : FinMap ProgramPoint State} {point : ProgramPoint} {entry : State}
    {world : World ClassTable} (stable : a.StableAt states point entry world) :
    a.quietAt states point entry world = true := by
  obtain ⟨pushes, world', delivered, absorbed⟩ := stable
  unfold Analysis.quietAt
  rw [delivered]
  refine List.all_eq_true.mpr fun push member => ?_
  obtain ⟨_, target, found, absorbs⟩ := absorbed push member
  rw [found]
  exact decide_eq_true (congrArg some absorbs.quiet)

/-- An analysis of an instance of a host class `C`, with which first some things are done in one
    block and then others in the next. -/
def onInstance (first second : List Operation) : Analysis ClassTable where
  setting := {
    host := ClassTable.host
    program := .sketch [] 3
      ([(0, .readVariable 0 "Java"), (0, .constant 1 (.string "C")),
        (0, .methodCall (some 2) 0 "type" [1]), (1, .construct 3 2 [])] ++
        first.map (2, ·) ++ second.map (3, ·))
      [(0, 1), (1, 2), (2, 3)]
    options := {} }
  dispatcher := Dispatcher.base.withLayer Foreign.layer

/-- Read a field of the instance. -/
def readField : List Operation := [.readProperty (some 4) 3 (.fixed "f")]

/-- Write null to the field. -/
def writeField : List Operation := [.constant 5 .null, .writeProperty 3 (.fixed "f") 5]

/-- A class with a field that holds a number. -/
def numberClass : HostClass := { name := "C", fields := FinMap.insert ∅ "f" .anyNumber }

theorem numberClass_built : numberClass.All Value.Built := by
  refine ⟨?_, nofun, nofun⟩
  intro name v found
  rw [show numberClass.fields = FinMap.insert ∅ "f" .anyNumber from rfl,
    FinMap.get?_insert] at found
  split at found
  · cases found
    exact .anyNumber
  · cases found

/-- The world before a run on the class. -/
def numberWorld : World ClassTable := ⟨.initial, ClassTable.empty.addClass numberClass, []⟩

/-- A field that is read in one block and written in a later one. When the write widens the field,
    the read is not made again: with the last table its block delivers more than was received. -/
theorem staleRead_not_stable :
    ∃ result w', (onInstance readField writeField).fixedPoint.run.run numberWorld =
        (.ok result, w') ∧
      result.isSound = true ∧ ∃ entry, result.states.get? ⟨2, .main⟩ = some entry ∧
      ¬ (onInstance readField writeField).StableAt result.states ⟨2, .main⟩ entry w' := by
  have noisy : (match (onInstance readField writeField).fixedPoint.run.run numberWorld with
      | (.ok result, w') => result.isSound && ((result.states.get? ⟨2, .main⟩).map fun entry =>
          (onInstance readField writeField).quietAt result.states ⟨2, .main⟩ entry w') == some false
      | (.error _, _) => false) = true := by
    decide +kernel
  rcases ran : (onInstance readField writeField).fixedPoint.run.run numberWorld with
    ⟨e | result, w'⟩
  · rw [ran] at noisy
    cases noisy
  · rw [ran] at noisy
    simp only [Bool.and_eq_true, beq_iff_eq] at noisy
    obtain ⟨entry, found, changes⟩ := Option.map_eq_some_iff.mp noisy.2
    refine ⟨result, w', rfl, noisy.1, entry, found, fun stable => ?_⟩
    rw [stable.quietAt] at changes
    cases changes

/-- Whether a visit is up to date with a table. -/
def isUpToDate (a : Analysis ClassTable) (table : ClassTable) (visit : Visit ClassTable) : Bool :=
  match ((a.withHost table.agreeing).deliveries visit.point visit.entry).run.run visit.world with
  | (.ok _, _) => true
  | (.error _, _) => false

theorem upToDate_of_isUpToDate {table : ClassTable} {visit : Visit ClassTable}
    (checked : a.isUpToDate table visit = true) : a.UpToDate visit table := by
  unfold isUpToDate at checked
  split at checked
  · exact ⟨_, _, ‹_›⟩
  · cases checked

/-- With the write before the read, all points are stable with the last table. -/
theorem freshRead_stable :
    ∃ result w', (onInstance writeField readField).fixedPoint.run.run numberWorld =
        (.ok result, w') ∧
      result.isSound = true ∧ result.states.size = 4 ∧
      ∀ point entry, result.states.get? point = some entry →
        (onInstance writeField readField).StableAt result.states point entry w' := by
  have checked : (match (onInstance writeField readField).fixedPoint.run.run numberWorld with
      | (.ok result, w') => result.isSound && (result.states.size == 4 &&
          ((onInstance writeField readField).visits numberWorld).all
            ((onInstance writeField readField).isUpToDate w'.host))
      | (.error _, _) => false) = true := by
    decide +kernel
  rcases ran : (onInstance writeField readField).fixedPoint.run.run numberWorld with
    ⟨e | result, w'⟩
  · rw [ran] at checked
    cases checked
  · rw [ran] at checked
    simp only [Bool.and_eq_true, beq_iff_eq] at checked
    have stable := fixedPoint_stable_of_upToDate rfl rfl
      ((ClassTable.All.empty _).addClass numberClass_built) ran checked.1
    refine ⟨result, w', rfl, checked.1, checked.2.1, fun point entry found => ?_⟩
    obtain ⟨visit, latest, _, withLast⟩ := stable point entry found
    have listed := (Visit.mem_of_last? latest).1
    exact withLast (upToDate_of_isUpToDate (List.all_eq_true.mp checked.2.2 visit listed)) w' rfl

end Analysis

end ScriptHeap
