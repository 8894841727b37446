import ScriptHeap.Proofs.Analysis.EntryValues
import ScriptHeap.Proofs.Analysis.Occurrence
import ScriptHeap.Proofs.Analysis.PropertyFacts
import ScriptHeap.Proofs.State.View
import ScriptHeap.Proofs.Transfer.Order
import ScriptHeap.Proofs.Value.Labels

/-!
# Consistent states

With the ordinary rules alone, every state of a run is consistent: registers hold actual values,
slots hold values that count as modified, nothing is bottom or left open, and every label that
occurs has an object (`Analysis.consistent_of_occurs`). A read can then not come up empty: a value
without primitives has a label, and each of its labels an object.

States that are stored for a point have frozen objects only, since a state is frozen when it arrives
first and what is joined to it later is frozen too.
-/

namespace ScriptHeap

open Fallible

/-! ### Values -/

namespace Value

/-- What a register holds: a value that is known, not split and not bottom, without any flag that
    belongs to a slot. -/
structure Actual (v : Value) : Prop where
  plain : v.Plain
  clean : v.Clean
  some : v.isNone = false

/-- What a slot holds: a value that is known, not split and not bottom, and may be modified. -/
structure Slotted (v : Value) : Prop where
  plain : v.Plain
  modified : v.maybeModified = true
  some : v.isNone = false

/-- Every label of the value has a shape. -/
def LabelsIn (shapes : Lookup Label Shape) (v : Value) : Prop :=
  ∀ label ∈ v.labels, (shapes label).isSome = true

variable {v w : Value}

theorem Plain.isNone_join (left : v.Plain) (right : w.Plain) :
    (v.join w).isNone = (v.isNone && w.isNone) :=
  Value.isNone_join left.formed left.known right.known

theorem Actual.join (left : v.Actual) (right : w.Actual) : (v.join w).Actual where
  plain := left.plain.join right.plain
  clean := Contents.clean_join left.clean right.clean
  some := by simp [left.plain.isNone_join right.plain, left.some]

theorem Slotted.join (left : v.Slotted) (right : w.Slotted) : (v.join w).Slotted where
  plain := left.plain.join right.plain
  modified := by
    rw [maybeModified_join left.plain.formed left.plain.known right.plain.known, left.modified]
    rfl
  some := by simp [left.plain.isNone_join right.plain, left.some]

theorem slotClosed_slotted : SlotClosed Slotted where
  absent := ⟨.ofFlags rfl, rfl, rfl⟩
  join := .join

theorem slotClosed_unlabelled : SlotClosed fun v => v.Slotted ∧ v.labels = ∅ where
  absent := ⟨slotClosed_slotted.absent, rfl⟩
  join := by
    intro v w left right
    refine ⟨left.1.join right.1, FinSet.ext fun label => ?_⟩
    refine ⟨fun member => ?_, nofun⟩
    rcases mem_labels_of_join member with own | other
    · exact left.2 ▸ own
    · exact right.2 ▸ other

theorem Actual.joinModified (actual : v.Actual) : v.joinModified.Slotted :=
  ⟨actual.plain.joinModified, rfl, actual.some⟩

theorem Actual.withoutAttributes (actual : v.Actual) : v.withoutAttributes.Actual where
  plain := actual.plain.withoutAttributes
  clean := ⟨actual.clean.1, actual.clean.2.1, rfl, rfl, rfl⟩
  some := actual.some

theorem Actual.joinAbsent (actual : v.Actual) : v.joinAbsent.joinModified.Slotted where
  plain := actual.plain.joinAbsent.joinModified
  modified := rfl
  some := by simp [isNone, Value.joinAbsent, Value.joinModified]

theorem kept_labelsIn (shapes : Lookup Label Shape) : Kept (LabelsIn shapes) where
  flags := fun _ _ => nofun
  string := fun _ => nofun
  join := fun left right label member =>
    (mem_labels_of_join member).elim (left label) (right label)
  reflag := fun labels _ _ => labels
  collapse := id

/-- A join of many values is not bottom if one of them is not. -/
theorem Plain.isNone_foldl_join {values : List Value} (plain : ∀ v ∈ values, v.Plain)
    (member : v ∈ values) (some : v.isNone = false) :
    (values.foldl Value.join .none).isNone = false := by
  have start : Value.none.Plain := .ofFlags rfl
  have absorbs := foldl_join_absorbs (fun w inside => (plain w inside).formed) start.formed v member
  have both := (Plain.foldl_join plain start).isNone_join (plain v member)
  rw [absorbs, some, Bool.and_false] at both
  exact both

theorem isNone_readAs (plain : v.Plain) (some : v.isNone = false) :
    (State.readAs v).isNone = false := by
  have present : v.notAbsent.notModified.withoutAttributes.Plain := plain.reflag rfl rfl
  have undefined : Value.undefined.Plain := .ofFlags rfl
  unfold State.readAs
  dsimp only
  split
  · rw [present.isNone_join undefined]
    exact Bool.and_false _
  · rename_i notAbsent
    have flag : v.flags.absent = false := by simpa [maybeAbsent] using notAbsent
    simpa [isNone, notAbsent, notModified, Value.withoutAttributes, Flags.withoutAttributes,
      Flags.somePrimitive, Value.notAbsent, flag] using some

theorem mem_allLabels (whole : v.parts = []) {label : Label} :
    label ∈ v.allLabels ↔ label ∈ v.labels := by
  rw [mem_allLabels_iff]
  simp [whole]

/-- An actual value without primitives has a label. -/
theorem Actual.exists_label (actual : v.Actual) (object : v.maybePrimitive = false) :
    ∃ label, label ∈ v.labels := by
  have some := actual.some
  have known : v.flags.unknown = false := actual.plain.known
  cases empty : v.labels.isEmpty with
  | true =>
      simp only [maybePrimitive, Bool.or_eq_false_iff, Option.isSome_eq_false_iff] at object
      simp [isNone, object.1, object.2, actual.clean.1, known, empty] at some
  | false =>
      by_contra none
      simp only [not_exists] at none
      rw [FinSet.isEmpty_eq_true_iff.mpr none] at empty
      cases empty

end Value

/-! ### Contents -/

theorem Lookup.isSome_join {κ α : Type} [DecidableEq α] (op : α → α → α) (f g : Lookup κ α)
    (key : κ) : (f.join op g key).isSome = ((f key).isSome || (g key).isSome) := by
  unfold Lookup.join
  cases f key <;> cases g key <;> rfl

namespace Contents

/-- Registers hold actual values, slots hold values that may be modified, and every label has an
    object. -/
structure Consistent (c : Contents) : Prop where
  registers : Lookup.All Value.Actual c.registers
  slots : Lookup.All (Shape.Each Value.Slotted) c.shapes
  labels : c.Each (Value.LabelsIn c.shapes)

variable {program : FlowGraph} {node : Node} {c c' d : Contents}

theorem Consistent.plain (consistent : c.Consistent) : c.Each Value.Plain where
  registers := fun r v held => (consistent.registers r v held).plain
  shapes := fun label shape held slot => (consistent.slots label shape held slot).plain

theorem Each.labelsIn {shapes shapes' : Lookup Label Shape}
    (grows : ∀ label, (shapes label).isSome = true → (shapes' label).isSome = true)
    (each : c.Each (Value.LabelsIn shapes)) : c.Each (Value.LabelsIn shapes') where
  registers := fun r v held label member => grows label (each.registers r v held label member)
  shapes := fun holder shape held slot label member =>
    grows label (each.shapes holder shape held slot label member)

/-- A read through the labels of an actual value without primitives is not bottom. -/
theorem Consistent.isNone_readThrough (consistent : c.Consistent) {r : Register} {u : Value}
    (held : c.registers r = some u) (key : Option Key) : (c.readThrough u key).isNone = false := by
  have actual := consistent.registers r u held
  have values : ∀ v ∈ c.readValues u.labels key, v.Plain := consistent.plain.readValues
  have start : Value.none.Plain := .ofFlags rfl
  have primitive : Value.anyPrimitive.Plain := .ofFlags rfl
  have raw := Value.Plain.foldl_join values start
  unfold readThrough
  rw [foldl_readValues]
  dsimp only
  split
  · have reads := readAs_of_kept (Value.closed_plain .global).toKept raw
    rw [reads.isNone_join primitive]
    exact Bool.and_false _
  · rename_i object
    obtain ⟨label, member⟩ := actual.exists_label (Bool.eq_false_iff.mpr object)
    obtain ⟨shape, found⟩ := Option.isSome_iff_exists.mp
      (consistent.labels.registers r u held label member)
    have slots := consistent.slots label shape found
    have inside := mem_shapesOf.mpr ⟨label, member, found⟩
    refine Value.isNone_readAs raw ?_
    cases key with
    | none =>
        refine Value.Plain.isNone_foldl_join values (v := shape.defaultNumeric)
          (List.mem_flatMap.mpr ⟨shape, inside, List.mem_cons_self⟩) (slots .defaultNumeric).some
    | some key =>
        refine Value.Plain.isNone_foldl_join values (v := shape.get key)
          (List.mem_map.mpr ⟨shape, inside, rfl⟩) (slots (.property key)).some

theorem Results.actual (consistent : c.Consistent) {v : Value}
    (result : Results program node c v) : v.Actual where
  plain := result.holds (Value.closed_plain node.label).toKept (fun _ => .object _) consistent.plain
  clean := result.clean
  some := by
    cases result with
    | @constant _ value _ =>
        cases value with
        | boolean b => cases b <;> rfl
        | undefined | null | number | string => rfl
    | @readVariable f name _ =>
        cases found : c.shapes (f.variableLabel name) with
        | none =>
            unfold Contents.readVariable
            rw [found]
            rfl
        | some shape =>
            have slot := consistent.slots _ shape found (.property (.name name))
            unfold Contents.readVariable
            rw [found]
            exact Value.isNone_readAs slot.plain slot.some
    | readProperty object _ => exact consistent.isNone_readThrough object _
    | object | anyPrimitive => rfl
    | @operator _ _ op u v _ _ =>
        cases op with
        | add =>
            show (BinaryOperator.sum u v).isNone = false
            unfold BinaryOperator.sum
            split
            · rfl
            · split <;> rfl
        | sub | mul | div | eq | strictEq | lt => rfl

theorem Steps.isSome_label (steps : Steps program node c c') (makes : node.Makes) :
    (c'.shapes node.label).isSome = true := by
  have allocated : ((c.allocate node.label).shapes node.label).isSome = true := by
    simp [allocate, change]
  cases steps with
  | newObject => exact allocated
  | construct =>
      rw [shapes_write?]
      exact allocated
  | call operation plain =>
      rcases makes with ⟨_, made⟩ | ⟨_, made, constructs⟩
      · simp [made] at operation
      · rw [operation] at made
        cases made
        rw [constructs] at plain
        cases plain
  | constant operation | readVariable operation | writeVariable operation
  | readProperty operation | writeProperty operation | binaryOperator operation =>
      rcases makes with ⟨_, made⟩ | ⟨_, made, _⟩ <;> simp [made] at operation
  | idle kind => rcases makes with ⟨_, made⟩ | ⟨_, made, _⟩ <;> simp [made, Operation.kind] at kind

/-- A step keeps contents consistent. -/
theorem Steps.consistent (steps : Steps program node c c') (consistent : c.Consistent) :
    c'.Consistent where
  registers := by
    intro r v found
    rcases steps.register found with kept | result
    · exact consistent.registers r v kept
    · exact result.actual consistent
  slots := by
    refine steps.slots Value.slotClosed_slotted consistent.slots ?_
    intro r v found
    have actual := (consistent.registers r v found).withoutAttributes
    rw [Value.collapse_of_whole actual.plain.whole]
    exact ⟨actual.joinModified, actual.joinModified, actual.joinAbsent⟩
  labels := by
    apply steps.each_of_kept (Value.kept_labelsIn c'.shapes)
    · intro makes label member
      rw [FinSet.mem_singleton.mp member]
      exact steps.isSome_label makes
    · exact consistent.labels.labelsIn fun _ => steps.isSome

/-- A join keeps contents consistent. -/
theorem Consistent.join (left : c.Consistent) (right : d.Consistent) : (c.join d).Consistent where
  registers := left.registers.join_closed .join right.registers
  slots := left.slots.join_closed Value.slotClosed_slotted.joined right.slots
  labels := by
    have kept := Value.kept_labelsIn (c.join d).shapes
    have own : c.Each (Value.LabelsIn (c.join d).shapes) :=
      left.labels.labelsIn fun label held => by simp [Contents.join, Lookup.isSome_join, held]
    have other : d.Each (Value.LabelsIn (c.join d).shapes) :=
      right.labels.labelsIn fun label held => by simp [Contents.join, Lookup.isSome_join, held]
    have registers := own.registers.join_closed kept.join other.registers
    have shapes := own.shapes.join_closed (fun left right => kept.slots.joined left right)
      other.shapes
    exact ⟨registers, shapes⟩

/-- Contents without registers and without labels in their slots are consistent. -/
theorem Consistent.of_unlabelled (empty : c.registers = fun _ => none)
    (slots : c.Each fun v => v.Slotted ∧ v.labels = ∅) : c.Consistent where
  registers := by simp [Lookup.All, empty]
  slots := fun label shape held slot => (slots.shapes label shape held slot).1
  labels := by
    refine ⟨by simp [Lookup.All, empty], fun holder shape held slot label member => ?_⟩
    rw [(slots.shapes holder shape held slot).2] at member
    cases member

end Contents

/-! ### States -/

namespace State

/-- The label occurs in a register or in a slot of an object. -/
inductive Mentions (s : State) (label : Label) : Prop where
  | register {r : Register} {v : Value} (held : s.registers.get? r = some v)
      (member : label ∈ v.allLabels) : Mentions s label
  | slot {holder : Label} {o : HeapObject} {slot : Slot} (held : s.object? holder = some o)
      (member : label ∈ (o.shape.getSlot slot).allLabels) : Mentions s label

/-- Registers hold actual values, slots hold values that may be modified, and every label that
    occurs has an object. -/
structure Consistent (s : State) : Prop where
  registers : ∀ r v, s.registers.get? r = some v → v.Actual
  slots : ∀ label o, s.object? label = some o → ∀ slot, (o.shape.getSlot slot).Slotted
  allocated : ∀ label, s.Mentions label → (s.object? label).isSome = true

/-- Every object is frozen. -/
def Frozen (s : State) : Prop := ∀ label o, s.object? label = some o → o.writable = false

variable {s : State}

theorem Consistent.of_contents (consistent : s.contents.Consistent) : s.Consistent where
  registers := consistent.registers
  slots := fun label o held => consistent.slots label o.shape (shapes_of_object held)
  allocated := by
    intro label mentions
    have shape : (s.shapes label).isSome = true := by
      cases mentions with
      | register held member =>
          have whole := (consistent.registers _ _ held).plain.whole
          exact consistent.labels.registers _ _ held label ((Value.mem_allLabels whole).mp member)
      | @slot _ _ slot held member =>
          have found := shapes_of_object held
          have whole := (consistent.slots _ _ found slot).plain.whole
          exact consistent.labels.shapes _ _ found _ label ((Value.mem_allLabels whole).mp member)
    simpa [shapes] using shape

theorem frozen_freezeHeap (s : State) : s.freezeHeap.Frozen := by
  intro label o held
  unfold object? freezeHeap at held
  rw [FinMap.get?_mapValues] at held
  obtain ⟨_, found, rfl⟩ := Option.map_eq_some_iff.mp held
  obtain ⟨cell, _, rfl⟩ := Option.map_eq_some_iff.mp found
  exact writable_frozen cell

/-- A frozen state takes over frozen objects only. -/
theorem Frozen.join (frozen : s.Frozen) (other : State) : (s.join other).2.Frozen := by
  intro label o held
  obtain ⟨cell, found, rfl⟩ := Option.map_eq_some_iff.mp held
  have own : ∀ cell, s.heap.get? label = some cell → cell.object.writable = false :=
    fun cell found => frozen label cell.object (by simp [object?, found])
  rw [join_eq] at found
  dsimp only at found
  rw [Merge.get?_run] at found
  cases taken : other.heap.get? label with
  | none =>
      rw [taken] at found
      exact own cell found
  | some joined =>
      rw [taken] at found
      cases present : s.heap.get? label with
      | none =>
          rw [present] at found
          obtain rfl : joined.frozen = cell := Option.some.inj found
          exact writable_frozen joined
      | some existing =>
          simp only [present, mergeCell] at found
          split at found
          · obtain rfl : existing = cell := Option.some.inj found
            exact own existing present
          · cases Option.some.inj found
            rfl

end State

/-! ### Runs -/

/-- A property of contents that steps keep is kept by the ordinary rules. -/
theorem Dispatcher.holds_base {σ : Type} {C : Contents → Prop}
    (keeps : ∀ {program node c c'}, Contents.Steps program node c c' → C c → C c')
    (setting : Setting σ) (node : Node) :
    Fallible.Safe (Machine.Holds (fun s => C s.contents) fun s => C s.contents) (fun _ => True)
      (base.dispatch setting node) fun _ => True := by
  rw [dispatch_base]
  refine (Ordinary.safe_rule ?_).mono (fun _ _ => trivial) fun _ _ => trivial
  intro m m' c holds stepped after
  have next : C c := keeps (Contents.steps_of_step stepped) holds.state
  exact ⟨after.contents ▸ next, after.pushes ▸ holds.pushes⟩

namespace Analysis

variable {σ : Type} {a : Analysis σ} {w : World σ}

theorem persistent_consistent (base : a.dispatcher = .base) :
    a.Persistent fun s => s.contents.Consistent where
  start := by
    have slots := Value.slotClosed_unlabelled
    intro main t push member
    rcases List.mem_cons.mp member with rfl | member
    · exact .of_unlabelled rfl (State.initial_slots slots _ _ _ _)
    · obtain ⟨f, _, rfl⟩ := List.mem_map.mp member
      have primitive : ∀ flags : Flags, flags.unknown = false → flags.somePrimitive = true →
          flags.modified = true →
          (Value.ofFlags flags).Slotted ∧ (Value.ofFlags flags).labels = ∅ :=
        fun flags known some modified => ⟨⟨.ofFlags known, modified, by
          simp [Value.isNone, Value.ofFlags, some]⟩, rfl⟩
      have registers := State.registers_entered t f a.setting.options.copyOnWriteDisabled
      refine .of_unlabelled ?_ (State.entered_slots slots (primitive _ rfl rfl rfl)
        (primitive _ rfl rfl rfl) t f _)
      funext r
      show (State.entered t f _).registers.get? r = none
      rw [registers]
      rfl
  freeze := by
    intro s consistent
    rw [State.contents_freezeHeap]
    exact consistent
  join := by
    intro s t left right
    rw [State.contents_join]
    exact left.join right
  dispatch := by
    rw [base]
    exact Dispatcher.holds_base (fun steps => steps.consistent) a.setting

theorem frozen_of_stores {s : State} (stores : a.Stores w s) : s.Frozen := by
  obtain ⟨order, moment, point, passes, found⟩ := stores
  induction passes generalizing point s with
  | start => cases found
  | @flow entries push _ _ _ _ ih =>
      rw [Entries.states_flow, FinMap.get?_insert] at found
      split at found
      · cases reached : entries.states.get? push.point with
        | none =>
            rw [reached] at found
            cases found
            exact State.frozen_freezeHeap _
        | some old =>
            rw [reached] at found
            cases found
            exact (ih push.point reached).join _
      · exact ih point found
  | round _ turn _ ih => exact ih point (Entries.states_of_next turn.next ▸ found)

/-- With the ordinary rules every state that occurs in a run is consistent, and those that are
    stored for a point are frozen. -/
theorem consistent_of_occurs (base : a.dispatcher = .base) {s : State} (occurs : a.Occurs w s) :
    s.Consistent ∧ (a.Stores w s → s.Frozen) :=
  ⟨.of_contents ((persistent_consistent base).of_occurs occurs), frozen_of_stores⟩

/-- A loop that puts a new object before those that it has made, and a function that is entered from
    outside. -/
def listLoop : Analysis Unit where
  setting := {
    host := .uniform .anyNumber
    program := .sketch [("f", ["x"])] 1
      [(0, .newObject 0), (0, .writeVariable "head" 0), (1, .readVariable 0 "x"),
        (2, .readVariable 1 "head"), (2, .newObject 2), (2, .writeProperty 2 (.fixed "next") 1),
        (2, .writeVariable "head" 2), (2, .readProperty (some 3) 1 (.fixed "next"))]
      [(0, 2), (2, 2)]
    options := {} }
  dispatcher := .base

/-- Where the loop is entered, the read of `next` in the last round can give each of the objects. -/
theorem listLoop_consistent :
    ∃ s, listLoop.Stores ⟨.initial, (), []⟩ s ∧
      s.registers.get? 3 = some
        ⟨{ undefined := true }, none, .ofList [⟨0, .object, none⟩, ⟨4, .object, none⟩], []⟩ ∧
      s.Consistent ∧ s.Frozen := by
  have shown : listLoop.settled? ⟨.initial, (), []⟩ ⟨2, .main⟩ (fun s => s.registers.get? 3) = some
      ⟨{ undefined := true }, none, .ofList [⟨0, .object, none⟩, ⟨4, .object, none⟩], []⟩ := by
    decide +kernel
  obtain ⟨s, stores, held⟩ := stores_of_settled? shown
  obtain ⟨consistent, frozen⟩ := consistent_of_occurs rfl (.stored stores)
  exact ⟨s, stores, held, consistent, frozen stores⟩

end Analysis

end ScriptHeap
