import ScriptHeap.Proofs.State.Cover
import ScriptHeap.State.Variables

/-!
# States that agree but for their facts

Two states agree when they have the same registers, the same heap and belong to the same activation;
their facts about registers may differ. Every operation on states keeps states in agreement, and
changes the facts of both in the same way: under each key the two come to agree, or both keep what
they had at the start (`FinMap.SameChanges`).

What an operation does to the heap does not depend on the facts (`HeapStep`). All of them keep
states well formed.
-/

namespace ScriptHeap

/-! ### Facts -/

namespace FinMap

variable {κ ν : Type} [Ord κ] [DecidableEq κ] [Std.TransOrd κ] [Std.LawfulEqOrd κ]

/-- Under every key the two maps agree now, or neither has changed. -/
def SameChanges (m₀ m n₀ n : FinMap κ ν) : Prop :=
  ∀ key, m.get? key = n.get? key ∨ (m.get? key = m₀.get? key ∧ n.get? key = n₀.get? key)

namespace SameChanges

variable {m₀ m n₀ n : FinMap κ ν}

omit [DecidableEq κ] [Std.TransOrd κ] [Std.LawfulEqOrd κ] in
theorem refl (m n : FinMap κ ν) : SameChanges m m n n := fun _ => .inr ⟨rfl, rfl⟩

/-- A key that both maps write holds the same in both. -/
theorem insert (same : SameChanges m₀ m n₀ n) (key : κ) (value : ν) :
    SameChanges m₀ (m.insert key value) n₀ (n.insert key value) := by
  intro other
  rw [get?_insert, get?_insert]
  by_cases changed : other = key
  · exact .inl (by simp [changed])
  · simpa [changed] using same other

/-- A key that both maps forget is in neither. -/
theorem erase (same : SameChanges m₀ m n₀ n) (key : κ) :
    SameChanges m₀ (m.erase key) n₀ (n.erase key) := by
  intro other
  rw [get?_erase, get?_erase]
  by_cases changed : other = key
  · exact .inl (by simp [changed])
  · simpa [changed] using same other

end SameChanges

end FinMap

/-! ### Well-formed objects -/

namespace Shape

/-- A property that is set holds the value, and the others read as before. -/
theorem get_set (s : Shape) (key other : Key) (v : Value) :
    (s.set key v).get other = if other = key then v else s.get other := by
  unfold get set
  rw [FinMap.get?_insert]
  by_cases same : other = key
  · simp [same]
  · simp only [same, if_false]
    rfl

/-- A shape stays well formed when a property is set to a well-formed value. -/
theorem WellFormed.set {s : Shape} (formed : s.WellFormed) (key : Key) {v : Value}
    (formedValue : v.WellFormed) : (s.set key v).WellFormed := by
  intro slot
  cases slot with
  | property other =>
      show ((s.set key v).get other).WellFormed
      rw [get_set]
      split
      · exact formedValue
      · exact formed (.property other)
  | defaultNumeric => exact formed .defaultNumeric
  | defaultOther => exact formed .defaultOther
  | internalValue => exact formed .internalValue
  | internalPrototype => exact formed .internalPrototype

/-- So it does when properties are set one after the other. -/
theorem WellFormed.foldl_set {α : Type} {key : α → Key} {value : α → Value} (items : List α)
    {s : Shape} (formed : s.WellFormed) (each : ∀ item ∈ items, (value item).WellFormed) :
    (items.foldl (fun shape item => shape.set (key item) (value item)) s).WellFormed := by
  induction items generalizing s with
  | nil => exact formed
  | cons item rest ih =>
      refine ih (formed.set (key item) (each item List.mem_cons_self)) ?_
      exact fun other member => each other (List.mem_cons_of_mem _ member)

/-- The values in the property map of a well-formed shape are well formed. -/
theorem WellFormed.value {s : Shape} (formed : s.WellFormed) {v : Value}
    (member : v ∈ s.properties.values) : v.WellFormed := by
  obtain ⟨key, found⟩ := FinMap.mem_values_iff.mp member
  have slot := formed (.property key)
  rwa [show s.getSlot (.property key) = v from get_of_listed found] at slot

/-- What holds of all contents of a shape holds of every slot. -/
theorem getSlot_of_contents {P : Value → Prop} {s : Shape}
    (properties : ∀ v ∈ s.properties.values, P v) (fixed : ∀ v ∈ s.fixedSlots, P v) (slot : Slot) :
    P (s.getSlot slot) := by
  have numeric : P s.defaultNumeric := fixed _ (by simp [fixedSlots])
  have other : P s.defaultOther := fixed _ (by simp [fixedSlots])
  cases slot with
  | property key =>
      show P (s.get key)
      cases found : s.properties.get? key with
      | some v =>
          rw [get_of_listed found]
          exact properties v (FinMap.mem_values_iff.mpr ⟨key, found⟩)
      | none =>
          rw [get_of_not_listed found]
          unfold default
          split
          · exact numeric
          · exact other
  | defaultNumeric => exact numeric
  | defaultOther => exact other
  | internalValue => exact fixed _ (by simp [getSlot, fixedSlots])
  | internalPrototype => exact fixed _ (by simp [getSlot, fixedSlots])

/-- A shape with other contents, each of which is well formed. -/
theorem WellFormed.of_contents {s : Shape}
    (properties : ∀ v ∈ s.properties.values, v.WellFormed)
    (fixed : ∀ v ∈ s.fixedSlots, v.WellFormed) : s.WellFormed :=
  getSlot_of_contents properties fixed

theorem WellFormed.absentModified : Shape.absentModified.WellFormed := by
  refine .of_contents nofun ?_
  intro v member
  simp only [fixedSlots, Shape.absentModified, uniform, List.mem_cons, List.not_mem_nil, or_false,
    or_self] at member
  subst member
  exact .ofFlags _

end Shape

namespace HeapObject

/-- A change of an object that keeps its shape well formed. -/
def KeepsForm (f : HeapObject → Except Error HeapObject) : Prop :=
  ∀ o o', f o = .ok o' → o.shape.WellFormed → o'.shape.WellFormed

/-- A change of the properties that is not refused shows in the shape. -/
theorem shape_of_changeProperties {o o' : HeapObject} {f : Shape → Shape}
    (changed : o.changeProperties f = .ok o') : o'.shape = f o.shape := by
  unfold changeProperties at changed
  split at changed
  · cases changed
    rfl
  · cases changed

/-- So does a change of the other slots. -/
theorem shape_of_changeSlots {o o' : HeapObject} {f : Shape → Shape}
    (changed : o.changeSlots f = .ok o') : o'.shape = f o.shape := by
  unfold changeSlots at changed
  split at changed
  · cases changed
    rfl
  · cases changed

/-- A default is written only if it is legal, and then like any other slot. -/
theorem of_setDefault {o o' : HeapObject} {numeric : Bool} {v : Value}
    (changed : o.setDefault numeric v = .ok o') :
    legalDefault v = true ∧ o.changeSlots (fun s =>
      if numeric then { s with defaultNumeric := v } else { s with defaultOther := v }) = .ok o' := by
  unfold setDefault at changed
  split at changed
  · cases changed
  · split at changed
    · cases changed
    · rename_i legal
      exact ⟨by simpa using legal, changed⟩

end HeapObject

namespace State

/-- A well-formed object may be stored under any label. -/
theorem WellFormed.insertCell {s : State} (formed : s.WellFormed) (label : Label) {cell : Cell}
    (formedShape : cell.object.shape.WellFormed) :
    ({ s with heap := s.heap.insert label cell } : State).WellFormed where
  registers := formed.registers
  shapes := by
    intro other shape found
    unfold State.shapes object? at found
    rw [FinMap.get?_insert] at found
    split at found
    · simp only [Option.map_some, Option.some.injEq] at found
      exact found ▸ formedShape
    · exact formed.shapes other shape found

/-- What a well-formed state holds under a label is well formed. -/
theorem WellFormed.cell {s : State} (formed : s.WellFormed) {label : Label} {cell : Cell}
    (found : s.heap.get? label = some cell) : cell.object.shape.WellFormed :=
  formed.shapes label cell.object.shape (by simp [State.shapes, object?, found])

/-- Making an object ready for a change may copy its map, and leaves its shape as it is. -/
@[simp] theorem shape_ready (cell : Cell) (copyOnWriteDisabled : Bool) :
    (cell.ready copyOnWriteDisabled).shape = cell.object.shape := by
  unfold Cell.ready
  split
  · rfl
  · split <;> rfl

/-! ### Changes of the heap -/

/-- A change of the heap that does not look at the facts of the state, leaves everything else alone
    and keeps the state well formed. -/
structure HeapStep (f : State → Except Error State) : Prop where
  frame : ∀ {s s'}, f s = .ok s' → s' = { s with heap := s'.heap }
  facts : ∀ {s s'} (defs : FinMap Register Nat) (equals : FinMap Register (Label × Key)),
    f s = .ok s' → f { s with mustDefs := defs, mustEquals := equals } =
      .ok { s' with mustDefs := defs, mustEquals := equals }
  formed : ∀ {s s'}, f s = .ok s' → s.WellFormed → s'.WellFormed

namespace HeapStep

/-- A change of one object is a step on the heap, if it keeps the shape well formed. -/
theorem modifyObject (label : Label) {f : HeapObject → Except Error HeapObject}
    (keeps : HeapObject.KeepsForm f) : HeapStep fun s => s.modifyObject label f := by
  have unfolded : ∀ {s s' : State}, s.modifyObject label f = .ok s' →
      ∃ cell object, s.heap.get? label = some cell ∧
        f (cell.ready s.copyOnWriteDisabled) = .ok object ∧
        s' = { s with heap := s.heap.insert label ⟨object, .owned⟩ } := by
    intro s s' modified
    unfold State.modifyObject at modified
    cases found : s.heap.get? label with
    | none => simp [found] at modified
    | some cell =>
        cases changed : f (cell.ready s.copyOnWriteDisabled) with
        | error e =>
            simp only [found, changed] at modified
            cases modified
        | ok object =>
            simp only [found, changed] at modified
            cases modified
            exact ⟨cell, object, rfl, changed, rfl⟩
  constructor
  · intro s s' modified
    obtain ⟨cell, object, _, _, rfl⟩ := unfolded modified
    rfl
  · intro s s' defs equals modified
    obtain ⟨cell, object, found, changed, rfl⟩ := unfolded modified
    simp only [State.modifyObject, found, changed]
    rfl
  · intro s s' modified formed
    obtain ⟨cell, object, found, changed, rfl⟩ := unfolded modified
    refine formed.insertCell label (keeps _ object changed ?_)
    rw [shape_ready]
    exact formed.cell found

theorem ensureObject (label : Label) : HeapStep fun s => .ok (s.ensureObject label) := by
  constructor
  · intro s s' done
    cases done
    unfold State.ensureObject
    split <;> rfl
  · intro s s' defs equals done
    cases done
    unfold State.ensureObject
    split <;> rfl
  · intro s s' done formed
    cases done
    unfold State.ensureObject
    split
    · exact formed
    · exact formed.insertCell label .absentModified

/-- Storing a well-formed object is a step on the heap, also under a label that has one already. -/
theorem newObject (label : Label) {o : HeapObject} (formedShape : o.shape.WellFormed) :
    HeapStep fun s => .ok (s.newObject label o) := by
  constructor
  · intro s s' done
    cases done
    rfl
  · intro s s' defs equals done
    cases done
    rfl
  · intro s s' done formed
    cases done
    refine formed.insertCell label ?_
    dsimp only
    cases found : s.object? label with
    | none => exact formedShape
    | some existing =>
        have formedOld : existing.shape.WellFormed :=
          formed.shapes label existing.shape (by simp [State.shapes, found])
        exact formedOld.join formedShape

/-- Steps on the heap may be taken one after the other. -/
theorem andThen {f g : State → Except Error State} (first : HeapStep f) (second : HeapStep g) :
    HeapStep fun s => f s >>= g := by
  have unfolded : ∀ {s s' : State}, f s >>= g = .ok s' → ∃ mid, f s = .ok mid ∧ g mid = .ok s' := by
    intro s s' done
    cases one : f s with
    | error e =>
        rw [one] at done
        cases done
    | ok mid =>
        rw [one] at done
        exact ⟨mid, rfl, done⟩
  constructor
  · intro s s' done
    obtain ⟨mid, one, two⟩ := unfolded done
    rw [second.frame two, first.frame one]
  · intro s s' defs equals done
    obtain ⟨mid, one, two⟩ := unfolded done
    show f _ >>= g = _
    rw [first.facts defs equals one]
    exact second.facts defs equals two
  · intro s s' done formed
    obtain ⟨mid, one, two⟩ := unfolded done
    exact second.formed two (first.formed one formed)

theorem skip : HeapStep fun s => .ok s := by
  constructor
  · intro s s' done
    cases done
    rfl
  · intro s s' defs equals done
    cases done
    rfl
  · intro s s' done formed
    cases done
    exact formed

/-- Steps on the heap may be taken for each of some items. -/
theorem foldlM {α : Type} {step : State → α → Except Error State} (items : List α)
    (each : ∀ item, HeapStep fun s => step s item) : HeapStep fun s => items.foldlM step s := by
  induction items with
  | nil => exact skip
  | cons item rest ih => exact (each item).andThen ih

/-- A choice between two steps may look at the heap. -/
theorem ifHeap (test : FinMap Label Cell → Bool) {f g : State → Except Error State}
    (first : HeapStep f) (second : HeapStep g) :
    HeapStep fun s => if test s.heap then f s else g s := by
  constructor
  · intro s s' done
    by_cases holds : test s.heap = true
    · exact first.frame (by simpa [holds] using done)
    · exact second.frame (by simpa [holds] using done)
  · intro s s' defs equals done
    by_cases holds : test s.heap = true
    · simpa [holds] using first.facts defs equals (by simpa [holds] using done)
    · simpa [holds] using second.facts defs equals (by simpa [holds] using done)
  · intro s s' done formed
    by_cases holds : test s.heap = true
    · exact first.formed (by simpa [holds] using done) formed
    · exact second.formed (by simpa [holds] using done) formed

theorem storeProperty (strong : Bool) (key : Key) {v : Value} (formedValue : v.WellFormed)
    (label : Label) : HeapStep fun s => State.storeProperty strong key v s label := by
  have keeps : HeapObject.KeepsForm fun o =>
      o.setProperty key (if strong then v else (o.shape.get key).join v) := by
    intro o o' changed formed
    rw [HeapObject.shape_of_changeProperties changed]
    refine formed.set key ?_
    split
    · exact formedValue
    · exact (formed (.property key)).join formedValue
  exact (ensureObject label).andThen (modifyObject label keeps)

/-- A write of a property is a step on the heap, also where it overwrites. -/
theorem writeProperty (labels : LabelSet) (key : Key) {v : Value} (formedValue : v.WellFormed) :
    HeapStep fun s => s.writeProperty labels key v :=
  foldlM labels.toList fun label => storeProperty _ key formedValue.joinModified label

theorem weakWriteProperty (labels : LabelSet) (key : Key) {v : Value} (formedValue : v.WellFormed) :
    HeapStep fun s => s.weakWriteProperty labels key v :=
  foldlM labels.toList fun label => storeProperty _ key formedValue.joinModified label

theorem storeAnyProperty {v : Value} (formedValue : v.WellFormed) (label : Label) :
    HeapStep fun s => State.storeAnyProperty v s label := by
  refine ifHeap (fun heap => heap.contains label) (modifyObject label ?_) skip
  intro o o₃ changed formed
  -- The two defaults are written before the properties.
  cases numeric : o.setDefaultNumeric (o.shape.defaultNumeric.join v) with
  | error e => simp [numeric, bind, Except.bind] at changed
  | ok o₁ =>
      cases other : o₁.setDefaultOther (o₁.shape.defaultOther.join v) with
      | error e => simp [numeric, other, bind, Except.bind] at changed
      | ok o₂ =>
          simp only [numeric, other, bind, Except.bind] at changed
          rw [HeapObject.shape_of_changeProperties changed,
            HeapObject.shape_of_changeSlots (HeapObject.of_setDefault other).2,
            HeapObject.shape_of_changeSlots (HeapObject.of_setDefault numeric).2]
          refine .of_contents ?_ ?_
          · intro w member
            obtain ⟨key, found⟩ := FinMap.mem_values_iff.mp member
            rw [FinMap.get?_mapValues] at found
            obtain ⟨old, foundOld, rfl⟩ := Option.map_eq_some_iff.mp found
            exact (formed.value (FinMap.mem_values_iff.mpr ⟨key, foundOld⟩)).join formedValue
          · intro w member
            simp only [Shape.fixedSlots, List.mem_cons, List.not_mem_nil, or_false] at member
            rcases member with rfl | rfl | rfl | rfl
            · exact (formed .defaultNumeric).join formedValue
            · exact (formed .defaultOther).join formedValue
            · exact formed .internalPrototype
            · exact formed .internalValue

/-- A write of a property of unknown name is a step on the heap. -/
theorem writeAnyProperty (labels : LabelSet) {v : Value} (formedValue : v.WellFormed) :
    HeapStep fun s => s.writeAnyProperty labels v :=
  foldlM labels.toList fun label => storeAnyProperty formedValue.joinAbsent.joinModified label

end HeapStep

/-! ### Reading -/

/-- The objects that some labels stand for are well formed. -/
theorem WellFormed.object {s : State} (formed : s.WellFormed) {labels : LabelSet} {o : HeapObject}
    (member : o ∈ s.objectsOf labels) : o.shape.WellFormed := by
  obtain ⟨label, _, found⟩ := List.mem_filterMap.mp member
  exact formed.shapes label o.shape (by simp [State.shapes, found])

/-- Reading a property of some objects gives a well-formed value. -/
theorem WellFormed.readProperty {s : State} (formed : s.WellFormed) (labels : LabelSet)
    (key : Key) : (s.readProperty labels key).WellFormed :=
  Value.WellFormed.foldl_join (s.objectsOf labels) (.ofFlags {}) fun _ member =>
    formed.object member (.property key)

/-- Reading a property of unknown name gives a well-formed value. -/
theorem WellFormed.readAnyProperty {s : State} (formed : s.WellFormed) (labels : LabelSet) :
    (s.readAnyProperty labels).WellFormed := by
  have each : ∀ o ∈ s.objectsOf labels, o.shape.WellFormed := fun _ => formed.object
  unfold State.readAnyProperty
  generalize s.objectsOf labels = objects at each
  have start : Value.none.WellFormed := .ofFlags {}
  generalize Value.none = v at start
  induction objects generalizing v with
  | nil => exact start
  | cons o rest ih =>
      have first := each o List.mem_cons_self
      refine ih (fun other member => each other (List.mem_cons_of_mem _ member)) _ ?_
      refine Value.WellFormed.foldl_join (f := id) _ start ?_
      intro w member
      rcases List.mem_cons.mp member with rfl | member
      · exact first .defaultNumeric
      · rcases List.mem_cons.mp member with rfl | member
        · exact first .defaultOther
        · exact first.value member

/-- What a read shows of a well-formed slot is well formed. -/
theorem readAs_wellFormed {v : Value} (formed : v.WellFormed) : (readAs v).WellFormed := by
  have present := formed.notAbsent.notModified.withoutAttributes
  unfold readAs
  split
  · exact present.join (.ofFlags _)
  · exact present

/-- The object that a variable lives in, whatever the interner knows. -/
theorem variableObject_fst (t u : Interner) (f : Function) (name : String) :
    (variableObject t f name).1 = (variableObject u f name).1 := by
  unfold variableObject
  split <;> rfl

/-- A variable reads as the slot of its name in the object that it lives in. -/
theorem readVariable_fst (s : State) (t : Interner) (f : Function) (name : String) :
    (s.readVariable t f name).1 =
      readAs (((s.object? (variableObject t f name).1).map fun o =>
        o.shape.get (.name name)).getD .absent) :=
  rfl

/-- Reading a variable gives a well-formed value. -/
theorem WellFormed.readVariable {s : State} (formed : s.WellFormed) (t : Interner) (f : Function)
    (name : String) : (s.readVariable t f name).1.WellFormed := by
  rw [readVariable_fst]
  refine readAs_wellFormed ?_
  cases found : s.object? (variableObject t f name).1 with
  | none => exact .ofFlags _
  | some o =>
      have shape : o.shape.WellFormed :=
        formed.shapes (variableObject t f name).1 o.shape (by simp [State.shapes, found])
      exact shape (.property (.name name))

/-! ### Agreement -/

/-- The two states agree, and have changed their facts in the same way since the start. -/
structure Agree (s₀ t₀ s t : State) : Prop where
  formed : s.WellFormed
  context : s.context = s₀.context
  values : t = { s with mustDefs := t.mustDefs, mustEquals := t.mustEquals }
  mustDefs : FinMap.SameChanges s₀.mustDefs s.mustDefs t₀.mustDefs t.mustDefs
  mustEquals : FinMap.SameChanges s₀.mustEquals s.mustEquals t₀.mustEquals t.mustEquals

namespace Agree

variable {s₀ t₀ s t : State}

/-- Two states with the same values agree at the start, whatever their facts. -/
theorem start (formed : s.WellFormed)
    (values : t = { s with mustDefs := t.mustDefs, mustEquals := t.mustEquals }) :
    Agree s t s t where
  formed := formed
  context := rfl
  values := values
  mustDefs := .refl _ _
  mustEquals := .refl _ _

theorem registers (agree : Agree s₀ t₀ s t) : t.registers = s.registers := by
  rw [agree.values]

theorem heap (agree : Agree s₀ t₀ s t) : t.heap = s.heap := by
  rw [agree.values]

theorem sameContext (agree : Agree s₀ t₀ s t) : t.context = s.context := by
  rw [agree.values]

theorem function (agree : Agree s₀ t₀ s t) : t.function = s.function := by
  rw [agree.values]

theorem object? (agree : Agree s₀ t₀ s t) : t.object? = s.object? := by
  unfold State.object?
  rw [agree.heap]

theorem objectsOf (agree : Agree s₀ t₀ s t) : t.objectsOf = s.objectsOf := by
  unfold State.objectsOf
  rw [agree.object?]

/-- Properties read the same in states that agree. -/
theorem readProperty (agree : Agree s₀ t₀ s t) : t.readProperty = s.readProperty := by
  unfold State.readProperty
  rw [agree.objectsOf]

theorem readAnyProperty (agree : Agree s₀ t₀ s t) : t.readAnyProperty = s.readAnyProperty := by
  unfold State.readAnyProperty
  rw [agree.objectsOf]

/-- The second state is well formed as the first one is. -/
theorem formed_right (agree : Agree s₀ t₀ s t) : t.WellFormed where
  registers := by
    rw [agree.registers]
    exact agree.formed.registers
  shapes := by
    unfold State.shapes
    rw [agree.object?]
    exact agree.formed.shapes

/-- States stay in agreement when a register is written, which ends the fact about it in both. -/
theorem writeRegister (agree : Agree s₀ t₀ s t) (r : Register) {v : Value}
    (formedValue : v.WellFormed) : Agree s₀ t₀ (s.writeRegister r v) (t.writeRegister r v) where
  formed := by
    refine ⟨?_, agree.formed.shapes⟩
    intro other w found
    simp only [State.writeRegister, FinMap.get?_insert] at found
    split at found
    · cases found
      exact formedValue
    · exact agree.formed.registers other w found
  context := agree.context
  values := by
    unfold State.writeRegister
    rw [agree.values]
  mustDefs := agree.mustDefs
  mustEquals := agree.mustEquals.erase r

theorem addMustDef (agree : Agree s₀ t₀ s t) (r : Register) (node : Nat) :
    Agree s₀ t₀ (s.addMustDef r node) (t.addMustDef r node) where
  formed := ⟨agree.formed.registers, agree.formed.shapes⟩
  context := agree.context
  values := by
    unfold State.addMustDef
    rw [agree.values]
  mustDefs := agree.mustDefs.insert r node
  mustEquals := agree.mustEquals

theorem addMustEquals (agree : Agree s₀ t₀ s t) (r : Register) (label : Label) (key : Key) :
    Agree s₀ t₀ (s.addMustEquals r label key) (t.addMustEquals r label key) where
  formed := ⟨agree.formed.registers, agree.formed.shapes⟩
  context := agree.context
  values := by
    unfold State.addMustEquals
    rw [agree.values]
  mustDefs := agree.mustDefs
  mustEquals := agree.mustEquals.insert r (label, key)

/-- A step on the heap of the first state can be taken in the second, and they agree afterwards. -/
theorem heapStep {f : State → Except Error State} (step : HeapStep f) (agree : Agree s₀ t₀ s t)
    {s' : State} (done : f s = .ok s') : ∃ t', f t = .ok t' ∧ Agree s₀ t₀ s' t' := by
  have frame := step.frame done
  have same := step.facts t.mustDefs t.mustEquals done
  rw [← agree.values] at same
  refine ⟨_, same, step.formed done agree.formed, ?_, rfl, ?_, ?_⟩
  · rw [frame]
    exact agree.context
  · rw [frame]
    exact agree.mustDefs
  · rw [frame]
    exact agree.mustEquals

/-- Freezing the heap changes no value and no fact. -/
theorem freezeHeap (agree : Agree s₀ t₀ s t) : Agree s₀ t₀ s.freezeHeap t.freezeHeap where
  formed := agree.formed.freezeHeap
  context := agree.context
  values := by
    unfold State.freezeHeap
    rw [agree.values]
  mustDefs := agree.mustDefs
  mustEquals := agree.mustEquals

/-- A write of a variable goes to the same object in both states, whatever the interners know. -/
theorem writeVariable (agree : Agree s₀ t₀ s t) (i j : Interner) (f : Function) (name : String)
    {v : Value} (formedValue : v.WellFormed) {labels : LabelSet} {s' : State}
    (done : (s.writeVariable i f name v).1 = .ok (labels, s')) :
    ∃ t', (t.writeVariable j f name v).1 = .ok (labels, t') ∧ Agree s₀ t₀ s' t' := by
  have unfolded : ∀ (u : State) (k : Interner), (u.writeVariable k f name v).1 =
      (u.writeProperty (FinSet.singleton (variableObject k f name).1) (.name name) v).map fun u =>
        (FinSet.singleton (variableObject k f name).1, u) := fun _ _ => rfl
  rw [unfolded] at done ⊢
  rw [variableObject_fst j i]
  cases written : s.writeProperty (FinSet.singleton (variableObject i f name).1) (.name name) v with
  | error e =>
      rw [written] at done
      cases done
  | ok s'' =>
      rw [written] at done
      cases done
      obtain ⟨t', writtenOther, agree'⟩ :=
        agree.heapStep (.writeProperty _ _ formedValue) written
      exact ⟨t', by rw [writtenOther]; rfl, agree'⟩

end Agree

end State

end ScriptHeap
