import ScriptHeap.Proofs.Host.ClassTable
import ScriptHeap.Proofs.Transfer.HostRules
import ScriptHeap.Proofs.Transfer.Values

/-!
# Failures of invariants in the rules for host values

The labels of host classes and instances carry a class name in every state, as long as they do in
the class table. Then a rule finds the name it asks for, and the one invariant that a node can break
is that a call, which hands on the state by itself, has one block to hand it to
(`FlowGraph.Blames`). The rest of what the rules rely on they provide themselves: heap objects are
made ready before they are written, and the ordinary rules leave the state to the driver.
-/

namespace ScriptHeap

open Fallible

/-! ### Names of classes -/

/-- A label of a host class, or of an instance of one, carries the name of the class. -/
def Label.Named (label : Label) : Prop :=
  label.kind = .foreignType ∨ label.kind = .foreignObject → label.className.isSome = true

/-- Every label of the value carries the class name that it should. -/
def Value.Named (v : Value) : Prop := ∀ label ∈ v.labels, label.Named

namespace Value.Named

variable {v w : Value}

theorem of_noLabels (none : v.labels = ∅) : v.Named := by
  intro label member
  rw [none] at member
  cases member

theorem object {label : Label} (named : label.Named) : (Value.object label).Named := by
  intro other member
  rw [FinSet.mem_singleton.mp member]
  exact named

/-- A join has no label that neither side has. -/
theorem join (left : v.Named) (right : w.Named) : (v.join w).Named := by
  intro label member
  exact (mem_labels_of_join member).elim (left label) (right label)

theorem notForeign (named : v.Named) : v.notForeign.Named :=
  fun label member => named label (FinSet.mem_filter.mp member).1

/-- A host class or an instance among the parts of a value has a class name. -/
theorem className (named : v.Named) {part : HostPart} (member : part ∈ v.hostParts)
    (notRoot : part.isRoot = false) : ∃ c, part.label.className = some c := by
  obtain ⟨label, held, found⟩ := List.mem_filterMap.mp member
  have own := named label (FinSet.mem_toList.mp held)
  unfold HostPart.ofLabel? at found
  refine Option.isSome_iff_exists.mp ?_
  cases kind : label.kind with
  | foreignType =>
      rw [kind] at found
      cases found
      exact own (.inl kind)
  | foreignObject =>
      rw [kind] at found
      cases found
      exact own (.inr kind)
  | foreignRoot =>
      rw [kind] at found
      cases found
      cases notRoot
  | _ =>
      rw [kind] at found
      cases found

end Value.Named

theorem Value.closed_named {label : Label} (named : label.Named) : Closed Named label where
  flags := fun _ _ => .of_noLabels rfl
  string := fun _ => .of_noLabels rfl
  object := .object named
  join := .join
  reflag := fun holds _ _ => holds
  collapse := id

theorem Node.label_named (node : Node) : node.label.Named := fun kind => by
  rcases kind with kind | kind <;> cases kind

/-! ### Who is to blame -/

/-- The node breaks an invariant: it is a call in a block that does not have one successor. -/
def FlowGraph.Blames (program : FlowGraph) (node : Node) (cause : InvariantCause) : Prop :=
  node.kind = .call ∧ ∃ successors, program.successors node.block = .ok successors ∧
    successors.length ≠ 1 ∧ cause = .notOneSuccessor node.block successors.length

/-- The error is of another sort than a broken invariant, or the node is to blame. -/
def Error.Blamed (program : FlowGraph) (node : Node) (e : Error) : Prop :=
  ∀ cause, e = .invariant cause → program.Blames node cause

/-! ### Class tables -/

namespace ClassTable

variable {program : FlowGraph} {node : Node}

/-- A question keeps class names in place, and fails by no invariant. -/
abbrev Safe {α : Type} (program : FlowGraph) (node : Node) (call : HostCall ClassTable α)
    (P : α → Prop) : Prop :=
  Fallible.Safe (ClassTable.All Value.Named) (Error.Blamed program node) call P

theorem blamed_host (cause : HostCause) : (Error.ofHost cause).Blamed program node := nofun

theorem safe_record (query : Query) : Safe program node (record query) fun _ => True :=
  .modify fun _ all => all

/-- A class that the table does not have is reported by the host. -/
theorem safe_findClass (name : String) :
    Safe program node (findClass name) (HostClass.All Value.Named) := by
  refine .bind .get fun table all => ?_
  cases found : table.classes.get? name with
  | none => exact .throw (blamed_host _)
  | some c => exact .pure (all name c found)

theorem safe_findMember {members : FinMap String Value}
    (each : ∀ name v, members.get? name = some v → v.Named) (className sort name : String) :
    Safe program node (findMember members className sort name) Value.Named := by
  unfold findMember
  cases found : members.get? name with
  | none => exact .throw (blamed_host _)
  | some v => exact .pure (each name v found)

theorem safe_receiverClasses (receiver : Value) :
    Safe program node (receiverClasses receiver) fun _ => True := by
  unfold receiverClasses
  split
  · exact .throw (blamed_host _)
  · exact .pure trivial

theorem safe_propertyValue (className property : String) :
    Safe program node (propertyValue className property) Value.Named := by
  exact .bind (safe_record _) fun _ _ => .bind (safe_findClass className) fun _ all =>
    safe_findMember all.fields _ _ _

theorem safe_functionValue (className function : String) :
    Safe program node (functionValue className function) Value.Named := by
  exact .bind (safe_record _) fun _ _ => .bind (safe_findClass className) fun _ all =>
    safe_findMember all.statics _ _ _

theorem safe_call (receiver : Value) (method : String) (arguments : List Value) :
    Safe program node (call receiver method arguments) Value.Named := by
  refine .bind (safe_receiverClasses receiver) fun classes _ =>
    .foldlM classes (fun className _ v named => ?_) (.of_noLabels rfl)
  refine .bind (P := Value.Named) ?_ fun w other => .pure (named.join other)
  exact .bind (safe_record _) fun _ _ => .bind (safe_findClass className) fun _ all =>
    safe_findMember all.methods _ _ _

/-- A write to the host adds the value to what the field may hold. -/
theorem safe_setProperty (receiver : Value) (property : String) {v : Value} (named : v.Named) :
    Safe program node (setProperty receiver property v) fun _ => True := by
  refine .bind (safe_receiverClasses receiver) fun classes _ => .forM classes fun className _ => ?_
  refine .bind (safe_record _) fun _ _ => .bind (safe_findClass className) fun c all =>
    .bind (safe_findMember all.fields _ _ _) fun old namedOld => .modify fun table each => ?_
  intro name d found
  rw [FinMap.get?_insert] at found
  split at found
  · cases found
    refine ⟨fun field w held => ?_, all.methods, all.statics⟩
    rw [FinMap.get?_insert] at held
    split at held
    · cases held
      exact namedOld.join named
    · exact all.fields field w held
  · exact each name d found

/-- A new instance carries the name of its class. -/
theorem safe_construct (site : Nat) (className : String) :
    Safe program node (construct site className) Value.Named := by
  exact .bind (safe_record _) fun _ _ => .bind (safe_findClass className) fun _ _ =>
    .ite (.pure (.object fun _ => rfl)) (.throw (blamed_host _))

end ClassTable

/-! ### Machines -/

/-- Class names are in place in the state, in the states that were pushed and in the host. -/
structure Machine.Named (m : Machine ClassTable) : Prop where
  state : m.state.contents.Each Value.Named
  pushes : ∀ push ∈ m.pushes, push.state.contents.Each Value.Named
  host : m.host.All Value.Named

namespace Machine.Named

theorem write {m : Machine ClassTable} (named : m.Named) (r : Register) {v : Value}
    (namedValue : v.Named) : Machine.Named { m with state := m.state.writeRegister r v } := by
  refine ⟨?_, named.pushes, named.host⟩
  rw [State.contents_writeRegister]
  refine ⟨fun q w found => ?_, named.state.shapes⟩
  rw [Contents.registers_write] at found
  split at found
  · cases found
    exact namedValue
  · exact named.state.registers q w found

theorem allocate {m : Machine ClassTable} (named : m.Named) (label : Label) :
    Machine.Named { m with state := m.state.newObject label (.ofShape .absentModified) } := by
  refine ⟨?_, named.pushes, named.host⟩
  have shapes := Contents.Each.allocate (Value.closed_named (default : Node).label_named)
    named.state.shapes label
  rw [State.contents_allocate]
  exact ⟨named.state.registers, shapes⟩

theorem weakWrite {m : Machine ClassTable} (named : m.Named) {s' : State} {labels : LabelSet}
    {key : Key} {v : Value} (namedValue : v.Named)
    (changes : m.state.Changes s' (m.state.contents.change labels fun shape? =>
      some ((shape?.getD .absentModified).store false key v.joinModified)).shapes) :
    Machine.Named { m with state := s' } := by
  refine ⟨?_, named.pushes, named.host⟩
  have shapes := Contents.Each.store (Value.closed_named (default : Node).label_named)
    named.state.shapes labels false key namedValue
  rw [changes.contents]
  exact ⟨named.state.registers, shapes⟩

/-- A rule leaves the host and the pushed states alone. -/
theorem of_after {m m' : Machine ClassTable} (named : m.Named) {program : FlowGraph} {node : Node}
    {c : Contents} (each : c.Each Value.Named) (after : m.After program node c m') : m'.Named :=
  ⟨after.contents ▸ each, after.pushes ▸ named.pushes, after.host ▸ named.host⟩

theorem push {m : Machine ClassTable} (named : m.Named) (point : ProgramPoint) :
    Machine.Named { m with
      state := m.state.freezeHeap
      pushes := m.pushes ++ [⟨m.state.freezeHeap, point⟩] } := by
  have frozen : m.state.freezeHeap.contents.Each Value.Named := by
    rw [State.contents_freezeHeap]
    exact named.state
  refine ⟨frozen, fun push member => ?_, named.host⟩
  rcases List.mem_append.mp member with old | new
  · exact named.pushes push old
  · rw [List.mem_singleton.mp new]
    exact frozen

end Machine.Named

/-! ### Rules -/

namespace Foreign

open Transfer

variable {setting : Setting ClassTable} {node : Node}

theorem blamed_of_missing {e : Error} (missing : e.Missing) : e.Blamed setting.program node := by
  rintro cause rfl
  cases missing

/-- The one place where a node can be to blame. -/
theorem blamed_of_singleSuccessor (kind : node.kind = .call) {e : Error}
    (failed : setting.program.singleSuccessor node.block = .error e) :
    e.Blamed setting.program node := by
  rintro cause rfl
  refine ⟨kind, ?_⟩
  unfold FlowGraph.singleSuccessor at failed
  unfold FlowGraph.successors at failed ⊢
  cases known : setting.program.graph.successors.get? node.block with
  | none =>
      rw [known] at failed
      cases failed
  | some set =>
      rw [known] at failed
      refine ⟨set.toList, rfl, ?_⟩
      rcases listed : set.toList with _ | ⟨first, _ | ⟨second, rest⟩⟩
      all_goals
        simp only [listed, bind, Except.bind] at failed
        cases failed
      · exact ⟨by simp, rfl⟩
      · exact ⟨by simp, rfl⟩

theorem madeValues_named (node : Node) : MadeValues node Value.Named where
  empty := .of_noLabels rfl
  join := .join
  notForeign := .notForeign
  withoutAttributes := id
  root := .object fun kind => by rcases kind with kind | kind <;> cases kind
  type := fun _ => Value.Named.object fun _ => rfl

theorem safe_ask {α : Type} {call : HostCall ClassTable α} {P : α → Prop}
    (safe : ClassTable.Safe setting.program node call P) :
    Safe Machine.Named (Error.Blamed setting.program node) (ask call) P := by
  intro m named
  obtain ⟨kept, result, error⟩ := safe m.host named.host
  exact ⟨⟨named.state, named.pushes, kept⟩, result, error⟩

section Table

variable (tabled : setting.host = ClassTable.host)

include tabled

theorem answers_named (node : Node) :
    Answers setting node Machine.Named Value.Named (Error.Blamed setting.program node) := by
  constructor
  all_goals rw [tabled]
  · exact fun _ _ => safe_ask (ClassTable.safe_propertyValue _ _)
  · exact fun _ _ => safe_ask (ClassTable.safe_functionValue _ _)
  · exact fun _ _ _ => safe_ask (ClassTable.safe_call _ _ _)
  · exact fun _ _ _ named => safe_ask (ClassTable.safe_setProperty _ _ named)
  · exact fun _ => safe_ask (ClassTable.safe_construct _ _)

/-- The parts of the rules keep class names in place. -/
theorem parts_named (node : Node) :
    Parts setting node Machine.Named Machine.Named Value.Named
      (Error.Blamed setting.program node) where
  values := madeValues_named node
  answers := answers_named tabled node
  held := fun named found => named.state.registers _ _ found
  missing := blamed_of_missing
  ofHost := ClassTable.blamed_host
  unnamed := by
    intro v part named member notRoot none
    obtain ⟨c, found⟩ := named.className member notRoot
    rw [none] at found
    cases found
  interner := fun _ named => ⟨named.state, named.pushes, named.host⟩
  event := fun _ named => ⟨named.state, named.pushes, named.host⟩
  write := fun r _ namedValue named => named.write r namedValue
  definition := fun _ named => ⟨named.state, named.pushes, named.host⟩
  newRoot := fun named => named.allocate _
  newType := fun _ _ _ named => named.allocate _
  weakWrite := fun _ namedValue named changes => named.weakWrite namedValue changes
  variableWrite := by
    intro m m' name r v f _ namedValue named after
    have closed := Value.closed_named node.label_named
    refine named.of_after ⟨?_, Contents.Each.writeVariable closed named.state.shapes f name
      namedValue⟩ after
    rw [Contents.registers_writeVariable]
    exact named.state.registers
  step := by
    intro m m' c _ named stepped after
    have each := (Contents.steps_of_step stepped).each (Value.closed_named node.label_named)
      named.state
    exact named.of_after each after
  push := fun _ _ _ _ named => named.push _
  noPush := fun kind _ failed => blamed_of_singleSuccessor kind failed

/-- Only a call can break an invariant, and only a call hands on the state. -/
theorem safe_dispatch (node : Node) :
    Safe Machine.Named (Error.Blamed setting.program node)
      ((Dispatcher.base.withLayer layer).dispatch setting node) (Hands node) :=
  (parts_named tabled node).dispatch.safe

/-- Where calls come last, a block can only break an invariant by its last node. -/
theorem safe_transferNodes (block : Nat) {nodes : List Node}
    (calls : ∀ node ∈ nodes.dropLast, node.kind ≠ .call) :
    Safe Machine.Named
      (fun e => ∀ cause, e = .invariant cause →
        ∃ node, nodes.getLast? = some node ∧ setting.program.Blames node cause)
      ((Dispatcher.base.withLayer layer).transferNodes setting block nodes) fun _ => True := by
  induction nodes with
  | nil => exact .pure trivial
  | cons node rest ih =>
      rcases rest with _ | ⟨next, rest⟩
      · refine .bind ((safe_dispatch tabled node).mono (fun _ hands => hands) ?_) ?_
        · intro e blamed cause same
          exact ⟨node, rfl, blamed cause same⟩
        · intro handover _
          cases handover <;> exact .pure trivial
      · have notCall : node.kind ≠ .call := calls node List.mem_cons_self
        refine .bind ((safe_dispatch tabled node).mono (fun _ hands => hands) ?_) ?_
        · intro e blamed cause same
          exact absurd (blamed cause same).1 notCall
        · intro handover hands
          cases handover with
          | done => exact absurd (hands rfl) notCall
          | pending => exact ih fun other member => calls other (List.mem_cons_of_mem _ member)

end Table

end Foreign

end ScriptHeap
