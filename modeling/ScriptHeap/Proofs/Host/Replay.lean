import ScriptHeap.Proofs.Host.ClassTable
import ScriptHeap.Proofs.Transfer.Logic

/-!
# Replaying what a class table was asked

A class table remembers every question before it looks for an answer, and a write to several classes
stops at the first one that has no such field. What was remembered of a write that failed is about a
field that does not exist, so the log tells what all fields hold: what they held at the start,
joined in order with the values that were to be written to them since (`ClassTable.Replays`).
Nothing else of the classes changes.

A question keeps this, whether it has an answer or not, and so does every sequence of questions
(`ClassTable.fields_of_queries`).
-/

namespace ScriptHeap

open Fallible

/-- The value that a question asks to write to a field of a class. -/
def Query.written? (className property : String) : Query → Option Value
  | .setProperty c p v => if c = className ∧ p = property then some v else none
  | _ => none

/-- The question asks for no write. -/
def Query.IsRead (query : Query) : Prop :=
  ∀ className property, query.written? className property = none

/-- A question to a host about its classes. -/
inductive HostQuestion where
  | propertyValue (className property : String)
  | functionValue (className function : String)
  | call (receiver : Value) (method : String) (arguments : List Value)
  | setProperty (receiver : Value) (property : String) (v : Value)
  | construct (site : Nat) (className : String)

namespace HostQuestion

variable {σ : Type}

/-- Put the question to a host. A write has no result. -/
def put (host : Host σ) : HostQuestion → HostCall σ (Option Value)
  | .propertyValue className property => some <$> host.propertyValue className property
  | .functionValue className function => some <$> host.functionValue className function
  | .call receiver method arguments => some <$> host.call receiver method arguments
  | .setProperty receiver property v => (fun _ => none) <$> host.setProperty receiver property v
  | .construct site className => some <$> host.construct site className

/-- Put questions one after the other, whether they have an answer or not. -/
def putAll (host : Host σ) (questions : List HostQuestion) :
    StateM σ (List (Except Error (Option Value))) :=
  questions.mapM fun question => (question.put host).run

end HostQuestion

namespace ClassTable

/-! ### The log -/

/-- The writes that questions ask for, in order. -/
def Writes.ofQueries (queries : List Query) : Writes := fun className property =>
  queries.filterMap (Query.written? className property)

theorem Writes.ofQueries_append_write (queries : List Query) (className property : String)
    (v : Value) :
    ofQueries (queries ++ [.setProperty className property v]) =
      (ofQueries queries).add className property v := by
  funext c p
  unfold ofQueries add
  rw [List.filterMap_append]
  by_cases same : className = c ∧ property = p
  · obtain ⟨rfl, rfl⟩ := same
    simp [Query.written?]
  · have other : ¬ (c = className ∧ p = property) := fun both => same ⟨both.1.symm, both.2.symm⟩
    simp [Query.written?, same, other]

theorem Writes.ofQueries_append_read (queries : List Query) {query : Query} (read : query.IsRead) :
    ofQueries (queries ++ [query]) = ofQueries queries := by
  funext c p
  simp [ofQueries, List.filterMap_append, read c p]

/-- The questions that a table was asked after another one. -/
def askedSince (table start : ClassTable) : List Query :=
  table.queries.drop start.queries.length

/-- The log has grown, and what was asked since says what the fields hold. -/
structure Replays (start table : ClassTable) : Prop where
  log : start.queries <+: table.queries
  after : start.After (.ofQueries (table.askedSince start)) table

variable {start table : ClassTable} {className property : String} {v : Value}

theorem askedSince_asked (log : start.queries <+: table.queries) (query : Query) :
    (table.asked query).askedSince start = table.askedSince start ++ [query] :=
  List.drop_append_of_le_length log.length_le

/-- A write to a field that does not exist makes no difference. -/
theorem After.add_of_missing {writes : Writes} (after : start.After writes table)
    (missing : start.field? className property = none) :
    start.After (writes.add className property v) table where
  signature := after.signature
  field := by
    intro c p
    rw [after.field]
    unfold Writes.add
    split
    · rename_i same
      obtain ⟨rfl, rfl⟩ := same
      rw [missing]
      rfl
    · rfl

namespace Replays

theorem refl (start : ClassTable) : start.Replays start where
  log := List.prefix_rfl
  after := by
    have nothing : start.askedSince start = [] := List.drop_length
    rw [nothing]
    exact .of_classes rfl

theorem log_asked (replays : start.Replays table) (query : Query) :
    start.queries <+: (table.asked query).queries :=
  replays.log.trans (List.prefix_append ..)

/-- A question that is no write. -/
theorem read (replays : start.Replays table) {query : Query} (read : query.IsRead) :
    start.Replays (table.asked query) where
  log := replays.log_asked query
  after := by
    rw [askedSince_asked replays.log, Writes.ofQueries_append_read _ read]
    exact replays.after.asked query

/-- A write that fails: it was remembered and nothing else. -/
theorem write_of_missing (replays : start.Replays table)
    (missing : table.field? className property = none) (v : Value) :
    start.Replays (table.asked (.setProperty className property v)) where
  log := replays.log_asked _
  after := by
    have never : start.field? className property = none := by
      rw [replays.after.field] at missing
      exact Option.map_eq_none_iff.mp missing
    rw [askedSince_asked replays.log, Writes.ofQueries_append_write]
    exact (replays.after.asked _).add_of_missing never

/-- A write that is made. -/
theorem write (replays : start.Replays table) {c : HostClass} {old : Value}
    (found : table.classes.get? className = some c) (known : c.fields.get? property = some old)
    (v : Value) :
    start.Replays ((table.asked (.setProperty className property v)).widened className property c
      (old.join v)) where
  log := replays.log_asked _
  after := by
    show start.After
      (.ofQueries ((table.asked (.setProperty className property v)).askedSince start)) _
    rw [askedSince_asked replays.log, Writes.ofQueries_append_write]
    exact (replays.after.asked _).widened found known

end Replays

/-! ### One question -/

/-- The computation leaves the log in step with the fields, also where it fails. -/
abbrev Logs {α : Type} (start : ClassTable) (x : HostCall ClassTable α) : Prop :=
  Fallible.Safe start.Replays (fun _ => True) x fun _ => True

theorem logs_receiverClasses (receiver : Value) : start.Logs (receiverClasses receiver) := by
  unfold receiverClasses
  split
  · exact .throw trivial
  · exact .pure trivial

theorem snd_findClass (table : ClassTable) (className : String) :
    ((findClass className).run.run table).2 = table := by
  have read : (MonadState.get : HostCall ClassTable ClassTable).run.run table =
      (.ok table, table) := rfl
  unfold findClass
  rw [run_bind_of_ok _ read]
  cases table.classes.get? className <;> rfl

theorem snd_findMember (table : ClassTable) (members : FinMap String Value)
    (className sort name : String) :
    ((findMember members className sort name).run.run table).2 = table := by
  unfold findMember
  cases members.get? name <;> rfl

theorem logs_of_snd {α : Type} {x : HostCall ClassTable α}
    (same : ∀ table, (x.run.run table).2 = table) : start.Logs x :=
  fun table replays => ⟨(same table).symm ▸ replays, fun _ _ => trivial, fun _ _ => trivial⟩

theorem logs_record {query : Query} (read : query.IsRead) : start.Logs (record query) :=
  .modify fun _ replays => replays.read read

/-- The questions for a member, of whatever sort. -/
theorem logs_askMember (select : HostClass → FinMap String Value) {query : Query}
    (read : query.IsRead) (className sort name : String) :
    start.Logs (do
      record query
      let c ← findClass className
      findMember (select c) className sort name) :=
  .bind (logs_record read) fun _ _ =>
    .bind (logs_of_snd fun table => snd_findClass table className) fun c _ =>
      logs_of_snd fun table => snd_findMember table (select c) className sort name

theorem logs_call (receiver : Value) (method : String) (arguments : List Value) :
    start.Logs (call receiver method arguments) := by
  refine .bind (logs_receiverClasses receiver) fun classes _ =>
    .foldlM classes (fun className _ v _ => ?_) trivial
  exact .bind (logs_askMember HostClass.methods (fun _ _ => rfl) className "method" method)
    fun _ _ => .pure trivial

theorem logs_construct (site : Nat) (className : String) :
    start.Logs (construct site className) :=
  .bind (logs_record fun _ _ => rfl) fun _ _ =>
    .bind (logs_of_snd fun table => snd_findClass table className) fun _ _ =>
      .ite (.pure trivial) (.throw trivial)

theorem snd_setField_of_missing (missing : table.field? className property = none) (v : Value) :
    ((setField property v className).run.run table).2 =
      table.asked (.setProperty className property v) := by
  have recorded : (record (.setProperty className property v)).run.run table =
      (.ok (), table.asked (.setProperty className property v)) := rfl
  unfold setField
  rw [run_bind_of_ok _ recorded]
  have unchanged := snd_findClass (table.asked (.setProperty className property v)) className
  rcases ranClass : (findClass className).run.run
      (table.asked (.setProperty className property v)) with ⟨e | c, table'⟩ <;>
    rw [ranClass] at unchanged <;> subst unchanged
  · rw [run_bind_of_error _ ranClass]
  · have found := (run_findClass.mp ranClass).1
    have unchanged := snd_findMember (table.asked (.setProperty className property v)) c.fields
      className "field" property
    rw [run_bind_of_ok _ ranClass]
    rcases ranMember : (findMember c.fields className "field" property).run.run
        (table.asked (.setProperty className property v)) with ⟨e | old, table'⟩ <;>
      rw [ranMember] at unchanged <;> subst unchanged
    · rw [run_bind_of_error _ ranMember]
    · have held : table.field? className property = some old :=
        Option.bind_eq_some_iff.mpr ⟨c, found, (run_findMember.mp ranMember).1⟩
      cases missing.symm.trans held

/-- One write is a single step: between the log and the field the two are out of step. -/
theorem logs_setField (property : String) (v : Value) (className : String) :
    start.Logs (setField property v className) := by
  intro table replays
  refine ⟨?_, fun _ _ => trivial, fun _ _ => trivial⟩
  cases held : table.field? className property with
  | none =>
      rw [snd_setField_of_missing held]
      exact replays.write_of_missing held v
  | some old =>
      obtain ⟨c, found, known⟩ := Option.bind_eq_some_iff.mp held
      rw [run_setField (u := ()) |>.mpr ⟨c, old, found, known, rfl⟩]
      exact replays.write found known v

theorem logs_setProperty (receiver : Value) (property : String) (v : Value) :
    start.Logs (setProperty receiver property v) :=
  .bind (logs_receiverClasses receiver) fun classes _ =>
    .forM classes fun className _ => logs_setField property v className

theorem logs_put (question : HostQuestion) : start.Logs (question.put host) := by
  have mapped : ∀ {α : Type} {x : HostCall ClassTable α} (f : α → Option Value),
      start.Logs x → start.Logs (f <$> x) := by
    intro α x f logs
    rw [map_eq_pure_bind]
    exact .bind logs fun _ _ => .pure trivial
  cases question with
  | propertyValue c p => exact mapped some (logs_askMember _ (fun _ _ => rfl) c "field" p)
  | functionValue c f => exact mapped some (logs_askMember _ (fun _ _ => rfl) c "static method" f)
  | call receiver method arguments => exact mapped some (logs_call receiver method arguments)
  | setProperty receiver property v => exact mapped _ (logs_setProperty receiver property v)
  | construct site c => exact mapped some (logs_construct site c)

/-! ### Sequences of questions -/

theorem Replays.putAll (replays : start.Replays table) (questions : List HostQuestion) :
    start.Replays ((HostQuestion.putAll host questions).run table).2 := by
  induction questions generalizing table with
  | nil => exact replays
  | cons question rest ih =>
      have later := ih (logs_put question table replays).1
      unfold HostQuestion.putAll at later ⊢
      rw [List.mapM_cons]
      exact later

theorem toOption_propertyValue (table : ClassTable) (className property : String) :
    ((propertyValue className property).run.run table).1.toOption =
      table.field? className property := by
  rcases ran : (propertyValue className property).run.run table with ⟨e | v, table'⟩
  · cases held : table.field? className property with
    | none => rfl
    | some v =>
        have answered := (run_askMember HostClass.fields (.propertyValue className property)
          "field").mpr ⟨held, rfl⟩
        cases ran.symm.trans answered
  · have held := ((run_askMember HostClass.fields _ "field").mp ran).1
    exact held.symm

/-- After any questions, with or without an answer, a table has the classes and fields that it had,
    with the same members otherwise. Each field holds what it held at the start, joined in order
    with the values of the writes to it that were remembered since, and a read is answered with
    that. -/
theorem fields_of_queries (start : ClassTable) (questions : List HostQuestion) :
    ∃ table queries,
      ((HostQuestion.putAll host questions).run start).2 = table ∧
      table.queries = start.queries ++ queries ∧
      start.SameLayout table ∧
      ∀ className property,
        table.field? className property =
          (start.field? className property).map
            (fun v => (queries.filterMap (Query.written? className property)).foldl Value.join v) ∧
        ((propertyValue className property).run.run table).1.toOption =
          table.field? className property := by
  have replays := (Replays.refl start).putAll questions
  refine ⟨_, _, rfl, (List.prefix_iff_eq_append.mp replays.log).symm, ?_, fun c p => ⟨?_, ?_⟩⟩
  · exact (After.of_classes rfl).sameLayout replays.after
  · exact replays.after.field c p
  · exact toOption_propertyValue _ c p

end ClassTable

end ScriptHeap
