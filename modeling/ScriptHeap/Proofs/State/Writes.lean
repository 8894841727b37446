import ScriptHeap.Proofs.State.Holders
import ScriptHeap.Proofs.State.Properties

/-!
# What a write reaches

A property that is written to some labels changes what their objects have under its key, and nothing
else in the state (`State.Writes`). Objects that are missing are made and objects that are shared
are copied on the way, so a write never fails. Variables are properties of one object each, and so a
variable reads as what was written to it, and the others as before (`State.property_writes`).
-/

namespace ScriptHeap

/-- The shapes differ in what they have under one key at most. -/
structure Shape.SameBut (key : Key) (old new : Shape) : Prop where
  listed : ∀ other, other ≠ key → new.properties.get? other = old.properties.get? other
  slots : ∀ slot, slot ≠ .property key → new.getSlot slot = old.getSlot slot
  scope : new.scope = old.scope

theorem Shape.sameBut_set (shape : Shape) (key : Key) (v : Value) :
    SameBut key shape (shape.set key v) where
  listed other distinct := FinMap.get?_insert_of_ne _ distinct v
  slots slot distinct := by
    cases slot with
    | property other =>
        refine (get_set shape key other v).trans (if_neg fun same => ?_)
        exact distinct (congrArg Slot.property same)
    | defaultNumeric | defaultOther | internalValue | internalPrototype => rfl
  scope := rfl

theorem Shape.SameBut.get {key other : Key} {old new : Shape} (same : SameBut key old new)
    (distinct : other ≠ key) : new.get other = old.get other :=
  same.slots (.property other) fun equal => distinct (Slot.property.inj equal)

namespace State

variable {s s' : State} {strong : Bool} {labels : LabelSet} {label other : Label} {key : Key}
  {v : Value}

/-- The shape that a write to a label starts from. -/
def shapeAt (s : State) (label : Label) : Shape :=
  (s.shapes label).getD .absentModified

/-- The second state is the first after a value has been written to a property of some labels, in
    the place of what was there or joined to it. -/
structure Writes (strong : Bool) (labels : LabelSet) (key : Key) (v : Value) (s s' : State) :
    Prop where
  /-- Registers, facts and whatever else there is beside the heap. -/
  frame : s' = { s with heap := s'.heap }
  elsewhere : ∀ label, ¬ label ∈ labels → s'.heap.get? label = s.heap.get? label
  target : ∀ label ∈ labels, ∃ o, s'.object? label = some o ∧
    o.shape.get key = (if strong then v else ((s.shapeAt label).get key).join v) ∧
    Shape.SameBut key (s.shapeAt label) o.shape

/-! ### The heap around a write -/

theorem heap_ensureObject (s : State) (distinct : other ≠ label) :
    (s.ensureObject label).heap.get? other = s.heap.get? other := by
  unfold ensureObject
  split
  · rfl
  · exact FinMap.get?_insert_of_ne _ distinct _

theorem heap_of_storeProperty (stored : storeProperty strong key v s label = .ok s')
    (distinct : other ≠ label) : s'.heap.get? other = s.heap.get? other := by
  obtain ⟨cell, o, _, _, rfl⟩ := of_modifyObject stored
  exact (FinMap.get?_insert_of_ne _ distinct _).trans (heap_ensureObject s distinct)

/-- Writing one label after the other leaves the cells of all others as they are. -/
theorem heap_of_foldlM_storeProperty {written : List Label}
    (stored : written.foldlM (storeProperty strong key v) s = .ok s')
    (outside : ¬ other ∈ written) : s'.heap.get? other = s.heap.get? other := by
  induction written generalizing s with
  | nil =>
      cases stored
      rfl
  | cons label rest ih =>
      rw [List.foldlM_cons] at stored
      obtain ⟨s₁, first, later⟩ := of_bind_eq_ok stored
      obtain ⟨distinct, outsideRest⟩ := not_or.mp (mt List.mem_cons.mpr outside)
      exact (ih later outsideRest).trans (heap_of_storeProperty first distinct)

theorem writes_of_foldlM (strong : Bool) (labels : LabelSet) (key : Key) (v : Value) (s : State) :
    ∃ s', labels.toList.foldlM (storeProperty strong key v) s = .ok s' ∧
      Writes strong labels key v s s' := by
  obtain ⟨s', stored, changes⟩ := foldlM_storeProperty_changes strong key v labels s
  refine ⟨s', stored, changes.frame, fun label outside => ?_, fun label member => ?_⟩
  · exact heap_of_foldlM_storeProperty stored (mt FinSet.mem_toList.mp outside)
  · have shape : s'.shapes label = some ((s.shapeAt label).store strong key v) := by
      rw [changes.shapes]
      exact if_pos member
    obtain ⟨o, held, same⟩ := Option.map_eq_some_iff.mp shape
    refine ⟨o, held, ?_, ?_⟩
    · rw [same, Shape.get_store, if_pos rfl]
    · rw [same]
      exact Shape.sameBut_set _ key _

/-! ### Variables -/

/-- A value that has no flags of slots is read back from the slot it was written to. -/
theorem readAs_joinModified (clean : v.Clean) : readAs v.joinModified = v := by
  obtain ⟨⟨_, _, _, _, _, _, absent, modified, _, dontDelete, dontEnum, readOnly⟩, _, _, _⟩ := v
  obtain ⟨rfl, rfl, rfl, rfl, rfl⟩ := clean
  rfl

theorem readAs_get_shapeAt (s : State) (label : Label) (key : Key) :
    readAs ((s.shapeAt label).get key) =
      readAs (((s.object? label).map fun o => o.shape.get key).getD .absent) := by
  unfold shapeAt shapes
  cases s.object? label with
  | some o => rfl
  | none =>
      show readAs (Shape.absentModified.default key) = _
      unfold Shape.default
      split <;> rfl

theorem readVariable_shapeAt (s : State) (t : Interner) (f : Function) (name : String) :
    (s.readVariable t f name).1 = readAs ((s.shapeAt (f.variableLabel name)).get (.name name)) := by
  rw [readVariable_fst, variableObject_eq, readAs_get_shapeAt]

theorem Writes.shapeAt_of_mem (writes : Writes strong labels key v s s') (member : label ∈ labels) :
    (s'.shapeAt label).get key = (if strong then v else ((s.shapeAt label).get key).join v) ∧
      Shape.SameBut key (s.shapeAt label) (s'.shapeAt label) := by
  obtain ⟨o, held, written, same⟩ := writes.target label member
  have shape : s'.shapeAt label = o.shape := by simp [shapeAt, shapes, held]
  rw [shape]
  exact ⟨written, same⟩

theorem Writes.shapeAt_of_not_mem (writes : Writes strong labels key v s s')
    (outside : ¬ label ∈ labels) : s'.shapeAt label = s.shapeAt label := by
  unfold shapeAt shapes object?
  rw [writes.elsewhere label outside]

/-- After one variable has been written, it reads as the value and the others as before. -/
theorem readVariable_of_writes {f : Function} {name : String} (clean : v.Clean)
    (writes : Writes true (FinSet.singleton (f.variableLabel name)) (.name name) v.joinModified s
      s')
    (t : Interner) (other : String) :
    (s'.readVariable t f other).1 = if other = name then v else (s.readVariable t f other).1 := by
  rw [readVariable_shapeAt, readVariable_shapeAt]
  split
  · rename_i same
    rw [same, (writes.shapeAt_of_mem (FinSet.mem_singleton.mpr rfl)).1]
    exact readAs_joinModified clean
  · rename_i distinct
    have otherKey : Key.name other ≠ .name name := fun equal => distinct (Key.name.inj equal)
    by_cases member : f.variableLabel other ∈ FinSet.singleton (f.variableLabel name)
    · rw [(writes.shapeAt_of_mem member).2.get otherKey]
    · rw [writes.shapeAt_of_not_mem member]

theorem writeVariable_eq (s : State) (t : Interner) (f : Function) (name : String) (v : Value) :
    (s.writeVariable t f name v).1 =
      (s.writeProperty (FinSet.singleton (f.variableLabel name)) (.name name) v).map fun s' =>
        (FinSet.singleton (f.variableLabel name), s') := by
  rw [← variableObject_eq t f name]
  rfl

/-- Writes of properties never fail and change their target alone: with one label and a write that
    is not weak, the old value goes, and otherwise it stays possible. A variable that is written
    reads as the value, and the others of the function as before. -/
theorem property_writes (s : State) (labels : LabelSet) (key : Key) (v : Value) :
    (∃ s', s.writeProperty labels key v = .ok s' ∧
      Writes (labels.size = 1) labels key v.joinModified s s') ∧
    (∃ s', s.weakWriteProperty labels key v = .ok s' ∧
      Writes false labels key v.joinModified s s') ∧
    ∀ (t u : Interner) (f : Function) (name : String), v.Clean →
      ∃ s', (s.writeVariable t f name v).1 = .ok (FinSet.singleton (f.variableLabel name), s') ∧
        (s'.readVariable u f name).1 = v ∧
        ∀ other, other ≠ name → (s'.readVariable u f other).1 = (s.readVariable u f other).1 := by
  refine ⟨writes_of_foldlM _ labels key _ s, writes_of_foldlM _ labels key _ s, ?_⟩
  intro t u f name clean
  obtain ⟨s', stored, writes⟩ :=
    writes_of_foldlM true (FinSet.singleton (f.variableLabel name)) (.name name) v.joinModified s
  have reads := readVariable_of_writes clean writes u
  refine ⟨s', ?_, (reads name).trans (if_pos rfl), fun other distinct =>
    (reads other).trans (if_neg distinct)⟩
  have written :
      s.writeProperty (FinSet.singleton (f.variableLabel name)) (.name name) v = .ok s' := stored
  rw [writeVariable_eq, written]
  rfl

/-- Null is written to an object with undefined and to a label without an object: both keep what was
    there, and the global object is left alone. A function that has no activation object yet reads
    null from the variable it writes, and its other variable still reads as undefined. -/
theorem unmade_written :
    ∃ s', (bodyWith (.withProperty .undefined)).writeProperty
        (.ofList [firstObject, ⟨2, .object, Option.none⟩]) (.name "p") .null = .ok s' ∧
      (∃ o, s'.object? firstObject = some o ∧
        o.shape.get (.name "p") = Value.undefined.join Value.null.joinModified) ∧
      (∃ o, s'.object? ⟨2, .object, Option.none⟩ = some o ∧
        o.shape.get (.name "p") = Value.absentModified.join Value.null.joinModified) ∧
      s'.heap.get? .global = (bodyWith (.withProperty .undefined)).heap.get? .global ∧
      ∃ labels s'', ((bodyWith (.withProperty .undefined)).writeVariable .initial
          ⟨1, some "f", ["x", "y"], [], 1⟩ "x" .null).1 = .ok (labels, s'') ∧
        (s''.readVariable .initial ⟨1, some "f", ["x", "y"], [], 1⟩ "x").1 = .null ∧
        (s''.readVariable .initial ⟨1, some "f", ["x", "y"], [], 1⟩ "y").1 = .undefined := by
  obtain ⟨⟨s', done, writes⟩, _, ofVariables⟩ := property_writes
    (bodyWith (.withProperty .undefined)) (.ofList [firstObject, ⟨2, .object, Option.none⟩])
    (.name "p") .null
  obtain ⟨s'', written, reads, others⟩ := ofVariables .initial .initial
    ⟨1, some "f", ["x", "y"], [], 1⟩ "x" ⟨rfl, rfl, rfl, rfl, rfl⟩
  obtain ⟨o, held, value, _⟩ := writes.target firstObject (FinSet.mem_ofList.mpr (by simp))
  obtain ⟨o', held', value', _⟩ :=
    writes.target ⟨2, .object, Option.none⟩ (FinSet.mem_ofList.mpr (by simp))
  refine ⟨s', done, ⟨o, held, value⟩, ⟨o', held', value'⟩, ?_, _, s'', written, reads, ?_⟩
  · exact writes.elsewhere .global fun member => absurd (FinSet.mem_ofList.mp member) (by decide)
  · exact (others "y" (by decide)).trans rfl

end State

end ScriptHeap
