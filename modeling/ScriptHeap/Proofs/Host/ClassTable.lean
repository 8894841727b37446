import ScriptHeap.Host.ClassTable
import ScriptHeap.Proofs.Transfer.Simulation

/-!
# What class tables answer

A class table answers from the descriptions of its classes, and only writes to fields change them.
Two tables of one layout that are asked the same questions take the same writes, so what they have
in their fields stays as far apart as it was (`ClassTable.Alike`). They give the same answers as
long as no field is read that they disagree on.
-/

namespace ScriptHeap

open Fallible

/-- A class without the values of its fields. -/
def HostClass.signature (c : HostClass) : HostClass := { c with fields := ∅ }

/-- All values in the description of a class satisfy a predicate. -/
structure HostClass.All (P : Value → Prop) (c : HostClass) : Prop where
  fields : ∀ name v, c.fields.get? name = some v → P v
  methods : ∀ name v, c.methods.get? name = some v → P v
  statics : ∀ name v, c.statics.get? name = some v → P v

namespace ClassTable

/-- All values in the descriptions of the classes satisfy a predicate. -/
def All (P : Value → Prop) (table : ClassTable) : Prop :=
  ∀ name c, table.classes.get? name = some c → c.All P

theorem All.mono {P Q : Value → Prop} {table : ClassTable} (all : table.All P)
    (weaker : ∀ v, P v → Q v) : table.All Q := by
  intro name c found
  have each := all name c found
  exact ⟨fun m v known => weaker v (each.fields m v known),
    fun m v known => weaker v (each.methods m v known),
    fun m v known => weaker v (each.statics m v known)⟩

theorem All.empty (P : Value → Prop) : ClassTable.empty.All P := nofun

theorem All.addClass {P : Value → Prop} {table : ClassTable} (all : table.All P) {c : HostClass}
    (each : c.All P) : (table.addClass c).All P := by
  intro name d found
  rw [show (table.addClass c).classes = table.classes.insert c.name c from rfl,
    FinMap.get?_insert] at found
  split at found
  · cases found
    exact each
  · exact all name d found

/-- A member of a class, out of those of one sort. -/
def member? (select : HostClass → FinMap String Value) (table : ClassTable)
    (className name : String) :
    Option Value :=
  (table.classes.get? className).bind fun c => (select c).get? name

/-- The value of a field. -/
abbrev field? (table : ClassTable) (className property : String) : Option Value :=
  table.member? HostClass.fields className property

/-- A table that was asked one more question. -/
def asked (table : ClassTable) (query : Query) : ClassTable :=
  { table with queries := table.queries ++ [query] }

/-! ### The questions -/

section Questions

variable {h h' : ClassTable} {className name : String} {v : Value}

theorem run_findClass {c : HostClass} :
    (findClass className).run.run h = (.ok c, h') ↔ h.classes.get? className = some c ∧ h' = h := by
  have read : (MonadState.get : HostCall ClassTable ClassTable).run.run h = (.ok h, h) := rfl
  unfold findClass
  rw [run_bind_of_ok _ read]
  cases h.classes.get? className with
  | none => exact ⟨nofun, fun found => nomatch found.1⟩
  | some d =>
      constructor
      · intro done
        cases done
        exact ⟨rfl, rfl⟩
      · rintro ⟨found, rfl⟩
        cases found
        rfl

theorem run_findMember {members : FinMap String Value} {sort : String} :
    (findMember members className sort name).run.run h = (.ok v, h') ↔
      members.get? name = some v ∧ h' = h := by
  unfold findMember
  cases members.get? name with
  | none => exact ⟨nofun, fun found => nomatch found.1⟩
  | some u =>
      constructor
      · intro done
        cases done
        exact ⟨rfl, rfl⟩
      · rintro ⟨found, rfl⟩
        cases found
        rfl

/-- The questions for a member, of whatever sort. -/
theorem run_askMember (select : HostClass → FinMap String Value) (query : Query) (sort : String) :
    (do
      record query
      let c ← findClass className
      findMember (select c) className sort name : HostCall ClassTable Value).run.run h =
        (.ok v, h') ↔
      h.member? select className name = some v ∧ h' = h.asked query := by
  have recorded : (record query).run.run h = (.ok (), h.asked query) := rfl
  rw [run_bind_of_ok _ recorded]
  constructor
  · intro done
    obtain ⟨c, h₁, ran, rest⟩ := of_run_bind done
    obtain ⟨found, rfl⟩ := run_findClass.mp ran
    obtain ⟨known, rfl⟩ := run_findMember.mp rest
    exact ⟨Option.bind_eq_some_iff.mpr ⟨c, found, known⟩, rfl⟩
  · rintro ⟨found, rfl⟩
    obtain ⟨c, foundClass, known⟩ := Option.bind_eq_some_iff.mp found
    rw [run_bind_of_ok _ (run_findClass (h := h.asked query) |>.mpr ⟨foundClass, rfl⟩)]
    exact run_findMember.mpr ⟨known, rfl⟩

/-- Only a class that is constructible has instances. -/
theorem run_construct {site : Nat} :
    (construct site className).run.run h = (.ok v, h') ↔
      (∃ c, h.classes.get? className = some c ∧ c.constructible = true) ∧
      v = .object ⟨site, .foreignObject, some className⟩ ∧
      h' = h.asked (.construct site className) := by
  have recorded : (record (.construct site className)).run.run h =
      (.ok (), h.asked (.construct site className)) := rfl
  unfold construct
  rw [run_bind_of_ok _ recorded]
  constructor
  · intro done
    obtain ⟨c, h₁, ran, rest⟩ := of_run_bind done
    obtain ⟨found, rfl⟩ := run_findClass.mp ran
    split at rest
    · cases rest
      exact ⟨⟨c, found, ‹_›⟩, rfl, rfl⟩
    · cases rest
  · rintro ⟨⟨c, found, constructible⟩, rfl, rfl⟩
    rw [run_bind_of_ok _ (run_findClass (h := h.asked _) |>.mpr ⟨found, rfl⟩), if_pos constructible]
    rfl

/-- A table after a write to a field that a class has. -/
def widened (table : ClassTable) (className property : String) (c : HostClass) (v : Value) :
    ClassTable :=
  { table with
    classes := table.classes.insert className { c with fields := c.fields.insert property v } }

/-- A write joins the value to what the field holds. -/
theorem run_setField {u : Unit} :
    (setField name v className).run.run h = (.ok u, h') ↔
      ∃ c old, h.classes.get? className = some c ∧ c.fields.get? name = some old ∧
        h' = (h.asked (.setProperty className name v)).widened className name c (old.join v) := by
  have recorded : (record (.setProperty className name v)).run.run h =
      (.ok (), h.asked (.setProperty className name v)) := rfl
  unfold setField
  rw [run_bind_of_ok _ recorded]
  constructor
  · intro done
    obtain ⟨c, h₁, ran, rest⟩ := of_run_bind done
    obtain ⟨found, rfl⟩ := run_findClass.mp ran
    obtain ⟨old, h₂, ranMember, rest⟩ := of_run_bind rest
    obtain ⟨known, rfl⟩ := run_findMember.mp ranMember
    cases rest
    exact ⟨c, old, found, known, rfl⟩
  · rintro ⟨c, old, found, known, rfl⟩
    rw [run_bind_of_ok _ (run_findClass (h := h.asked _) |>.mpr ⟨found, rfl⟩),
      run_bind_of_ok _ (run_findMember.mpr ⟨known, rfl⟩)]
    rfl

end Questions

/-! ### Tables that take the same writes -/

/-- The values that were written to the fields of the classes, in order. -/
abbrev Writes := String → String → List Value

namespace Writes

/-- Nothing is written. -/
def none : Writes := fun _ _ => []

/-- One more write. -/
def add (writes : Writes) (className property : String) (v : Value) : Writes :=
  fun c p => if c = className ∧ p = property then writes c p ++ [v] else writes c p

/-- Only well-formed values are written. -/
def WellFormed (writes : Writes) : Prop :=
  ∀ className property, ∀ v ∈ writes className property, v.WellFormed

theorem WellFormed.none : Writes.none.WellFormed := nofun

theorem WellFormed.add {writes : Writes} (formed : writes.WellFormed) (className property : String)
    {v : Value} (formedValue : v.WellFormed) : (writes.add className property v).WellFormed := by
  intro c p w member
  unfold Writes.add at member
  split at member
  · rcases List.mem_append.mp member with earlier | last
    · exact formed c p w earlier
    · rw [List.mem_singleton.mp last]
      exact formedValue
  · exact formed c p w member

end Writes

/-- The table has the classes of another one, with some writes joined to their fields. -/
structure After (start : ClassTable) (writes : Writes) (table : ClassTable) : Prop where
  signature : ∀ className, (table.classes.get? className).map HostClass.signature =
    (start.classes.get? className).map HostClass.signature
  field : ∀ className property, table.field? className property =
    (start.field? className property).map fun v => (writes className property).foldl Value.join v

namespace After

variable {start table : ClassTable} {writes : Writes} {className property : String}

/-- A table with the same classes is one without further writes. -/
theorem of_classes (same : table.classes = start.classes) : start.After .none table where
  signature := by
    intro className
    rw [same]
  field := by
    intro className property
    unfold field? member?
    rw [same]
    exact Option.map_id'.symm

/-- What is true of all values at the start and of the writes stays true of all values. -/
theorem all (after : start.After writes table) (formed : start.All Value.WellFormed)
    (formedWrites : writes.WellFormed) : table.All Value.WellFormed := by
  intro className c found
  have same := after.signature className
  rw [found] at same
  obtain ⟨d, foundStart, signature⟩ := Option.map_eq_some_iff.mp same.symm
  have formedStart := formed className d foundStart
  have methods : d.signature.methods = c.signature.methods := congrArg _ signature
  have statics : d.signature.statics = c.signature.statics := congrArg _ signature
  refine ⟨?_, fun name v known => formedStart.methods name v ?_,
    fun name v known => formedStart.statics name v ?_⟩
  rotate_left
  · rw [← known]
    exact congrArg (FinMap.get? · name) methods
  · rw [← known]
    exact congrArg (FinMap.get? · name) statics
  intro property v known
  have held : table.field? className property = some v :=
    Option.bind_eq_some_iff.mpr ⟨c, found, known⟩
  rw [after.field] at held
  obtain ⟨x, start, rfl⟩ := Option.map_eq_some_iff.mp held
  obtain ⟨e, foundAgain, knownStart⟩ := Option.bind_eq_some_iff.mp start
  obtain rfl : d = e := Option.some.inj (foundStart.symm.trans foundAgain)
  exact Value.WellFormed.foldl_join _ (formedStart.fields property x knownStart)
    (formedWrites className property)

theorem asked (after : start.After writes table) (query : Query) :
    start.After writes (table.asked query) :=
  ⟨after.signature, after.field⟩

theorem widened (after : start.After writes table) {c : HostClass} {old v : Value}
    (found : table.classes.get? className = some c) (known : c.fields.get? property = some old) :
    start.After (writes.add className property v)
      (table.widened className property c (old.join v)) where
  signature := by
    intro other
    rw [← after.signature other]
    show ((table.classes.insert className _).get? other).map _ = _
    rw [FinMap.get?_insert]
    split
    · subst other
      rw [found]
      rfl
    · rfl
  field := by
    intro otherClass otherProperty
    have before := after.field otherClass otherProperty
    show ((table.classes.insert className _).get? otherClass).bind _ = _
    rw [FinMap.get?_insert]
    unfold Writes.add
    by_cases sameClass : otherClass = className
    · subst otherClass
      have held : table.field? className otherProperty = c.fields.get? otherProperty := by
        show (table.classes.get? className).bind _ = _
        rw [found]
        rfl
      rw [if_pos rfl]
      show (c.fields.insert property (old.join v)).get? otherProperty = _
      rw [FinMap.get?_insert]
      by_cases sameProperty : otherProperty = property
      · subst otherProperty
        rw [held, known] at before
        obtain ⟨first, foundFirst, joined⟩ := Option.map_eq_some_iff.mp before.symm
        rw [if_pos rfl, foundFirst, if_pos ⟨rfl, rfl⟩, Option.map_some, List.foldl_append, joined]
        rfl
      · rw [if_neg sameProperty, if_neg fun same => sameProperty same.2, ← before, held]
    · rw [if_neg sameClass, if_neg fun same => sameClass same.1, ← before]
      rfl

end After

/-- Two tables with the same classes, apart from what their fields hold. -/
structure SameLayout (A B : ClassTable) : Prop where
  signature : ∀ className, (B.classes.get? className).map HostClass.signature =
    (A.classes.get? className).map HostClass.signature
  field : ∀ className property,
    (B.field? className property).isSome = (A.field? className property).isSome

theorem SameLayout.refl (A : ClassTable) : A.SameLayout A := ⟨fun _ => rfl, fun _ _ => rfl⟩

/-- Tables that come from one table by writes have the same layout. -/
theorem After.sameLayout {start A B : ClassTable} {writes writes' : Writes}
    (first : start.After writes A) (second : start.After writes' B) : A.SameLayout B where
  signature := fun className => (second.signature className).trans (first.signature className).symm
  field := by
    intro className property
    rw [first.field, second.field, Option.isSome_map, Option.isSome_map]

/-- Two tables after the same writes, each to a table of its own. -/
def Alike (A B h k : ClassTable) : Prop :=
  ∃ writes : Writes, writes.WellFormed ∧ A.After writes h ∧ B.After writes k

/-- Reads of a field are answered alike. -/
def AnswersReads (K : Coupling ClassTable ClassTable) (source : Host ClassTable) : Prop :=
  ∀ className property,
    K.Answers (source.propertyValue className property) (propertyValue className property)
      Coupling.SameValue

/-- The questions other than for fields are put to the table as they are. -/
def ReadsOnly (source : Host ClassTable) : Prop :=
  source = { host with propertyValue := source.propertyValue }

section Answers

variable {A B : ClassTable} {s t : State} (layout : A.SameLayout B)
  (formed : A.All Value.WellFormed)

/-- The coupling of runs on two tables. -/
def coupling (A B : ClassTable) (s t : State) : Coupling ClassTable ClassTable := ⟨s, t, Alike A B⟩

theorem answers_receiverClasses (receiver : Value) :
    (coupling A B s t).Answers (receiverClasses receiver) (receiverClasses receiver) Eq := by
  intro h k classes h' alike answered
  unfold receiverClasses at answered ⊢
  split at answered
  · cases answered
  · cases answered
    exact ⟨_, k, rfl, alike, rfl⟩

include layout

/-- Members that are part of the signature are the same. -/
theorem member_same {select : HostClass → FinMap String Value}
    (signed : ∀ c, select c.signature = select c) {h k : ClassTable} (alike : Alike A B h k)
    (className name : String) :
    k.member? select className name = A.member? select className name ∧
      h.member? select className name = A.member? select className name := by
  obtain ⟨writes, _, first, second⟩ := alike
  have through : ∀ table : ClassTable, table.member? select className name =
      ((table.classes.get? className).map HostClass.signature).bind
        fun c => (select c).get? name := by
    intro table
    unfold member?
    cases table.classes.get? className with
    | none => rfl
    | some c => exact congrArg (FinMap.get? · name) (signed c).symm
  rw [through k, through h, through A, second.signature, first.signature, layout.signature]
  exact ⟨rfl, rfl⟩

theorem answers_construct (site : Nat) (className : String) :
    (coupling A B s t).Answers (construct site className) (construct site className)
      Coupling.SameValue := by
  intro h k v h' alike answered
  obtain ⟨⟨c, found, constructible⟩, rfl, rfl⟩ := run_construct.mp answered
  obtain ⟨writes, formedWrites, first, second⟩ := alike
  have same : (k.classes.get? className).map HostClass.signature = some c.signature := by
    rw [second.signature, layout.signature, ← first.signature, found]
    rfl
  obtain ⟨d, foundOther, signature⟩ := Option.map_eq_some_iff.mp same
  have constructibleOther : d.constructible = true := by
    rw [← constructible]
    exact (congrArg HostClass.constructible signature : d.signature.constructible = _)
  exact ⟨_, _, run_construct.mpr ⟨⟨d, foundOther, constructibleOther⟩, rfl, rfl⟩,
    ⟨writes, formedWrites, first.asked _, second.asked _⟩, rfl, .objects _⟩

theorem answers_setField (className property : String) {v : Value} (formedValue : v.WellFormed) :
    (coupling A B s t).Answers (setField property v className) (setField property v className)
      Eq := by
  intro h k u h' alike answered
  obtain ⟨c, old, found, known, rfl⟩ := run_setField.mp answered
  obtain ⟨writes, formedWrites, first, second⟩ := alike
  have held : h.field? className property = some old :=
    Option.bind_eq_some_iff.mpr ⟨c, found, known⟩
  have heldOther : (k.field? className property).isSome = true := by
    rw [second.field, Option.isSome_map, layout.field]
    rw [first.field] at held
    obtain ⟨w, foundFirst, _⟩ := Option.map_eq_some_iff.mp held
    rw [foundFirst]
    rfl
  obtain ⟨oldOther, heldOther⟩ := Option.isSome_iff_exists.mp heldOther
  obtain ⟨d, foundOther, knownOther⟩ := Option.bind_eq_some_iff.mp heldOther
  exact ⟨u, _, run_setField.mpr ⟨d, oldOther, foundOther, knownOther, rfl⟩,
    ⟨writes.add className property v, formedWrites.add className property formedValue,
      (first.asked _).widened found known, (second.asked _).widened foundOther knownOther⟩, rfl⟩

include formed

/-- A question for a member that is part of the signature. -/
theorem answers_askMember {select : HostClass → FinMap String Value}
    (signed : ∀ c, select c.signature = select c)
    (each : ∀ c : HostClass, c.All Value.WellFormed → ∀ m v,
      (select c).get? m = some v → v.WellFormed)
    (query : Query) (sort className name : String) :
    (coupling A B s t).Answers
      (do
        record query
        let c ← findClass className
        findMember (select c) className sort name)
      (do
        record query
        let c ← findClass className
        findMember (select c) className sort name)
      Coupling.SameValue := by
  intro h k v h' alike answered
  obtain ⟨found, rfl⟩ := (run_askMember select query sort).mp answered
  obtain ⟨same, sameFirst⟩ := member_same layout signed alike className name
  rw [sameFirst] at found
  have formedValue : v.WellFormed := by
    obtain ⟨c, foundClass, known⟩ := Option.bind_eq_some_iff.mp found
    exact each c (formed className c foundClass) name v known
  obtain ⟨writes, formedWrites, first, second⟩ := alike
  exact ⟨v, _, (run_askMember select query sort).mpr ⟨same.trans found, rfl⟩,
    ⟨writes, formedWrites, first.asked _, second.asked _⟩, rfl, formedValue⟩

theorem answers_call (receiver : Value) (method : String) (arguments : List Value) :
    (coupling A B s t).Answers (call receiver method arguments) (call receiver method arguments)
      Coupling.SameValue := by
  refine .bind (answers_receiverClasses receiver) fun classes _ same => ?_
  subst same
  refine .foldlM classes (fun className _ v _ same => ?_) ⟨rfl, .ofFlags _⟩
  obtain ⟨rfl, formedBefore⟩ := same
  refine .bind (answers_askMember layout formed (fun _ => rfl) (fun _ each => each.methods)
    (.call className method arguments) "method" className method) fun w _ answer => ?_
  obtain ⟨rfl, formedAnswer⟩ := answer
  exact .pure ⟨rfl, formedBefore.join formedAnswer⟩

/-- A table answers like another one with which it shares the layout, except for the fields. What is
    left to show is that the source answers for a field only where the two agree on it. -/
theorem hosts_of_reads {source : Host ClassTable} (others : ReadsOnly source)
    (reads : AnswersReads (coupling A B s t) source) : (coupling A B s t).Hosts source host := by
  rw [others]
  exact {
    propertyValue := reads
    functionValue := fun className function =>
      answers_askMember layout formed (fun _ => rfl) (fun _ each => each.statics)
        (.functionValue className function) "static method" className function
    call := fun receiver method arguments _ _ =>
      answers_call layout formed receiver method arguments
    setProperty := fun receiver property v _ formedValue =>
      .bind (answers_receiverClasses receiver) fun classes _ same => by
        subst same
        exact .forM classes fun className => answers_setField layout className property formedValue
    construct := fun site className => answers_construct layout site className }

end Answers

end ClassTable

end ScriptHeap
