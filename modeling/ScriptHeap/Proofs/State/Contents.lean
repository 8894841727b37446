import ScriptHeap.Proofs.State.Agreement

/-!
# The contents of a state

What a rule makes of a state depends on the registers, on the shapes of the objects and on the
function that the state belongs to. These are its contents. Who holds an object, the facts about
registers and the interner do not matter.

Each operation on states is one on contents here (`State.contents_allocate`,
`State.writeProperty_changes` and so on). A write to the heap never fails: an object is made ready
before it is changed, and a default that has been widened may be absent.
-/

namespace ScriptHeap

/-- A value has none of the flags that belong to a slot. -/
def Value.Clean (v : Value) : Prop :=
  v.flags.absent = false ∧ v.flags.modified = false ∧ v.flags.dontDelete = false ∧
    v.flags.dontEnum = false ∧ v.flags.readOnly = false

/-! ### Shapes -/

namespace Shape

/-- Write a property in the place of what it held, or joined to it. -/
def store (strong : Bool) (key : Key) (v : Value) (shape : Shape) : Shape :=
  shape.set key (if strong then v else (shape.get key).join v)

/-- Join a value to every property. -/
def storeAny (v : Value) (shape : Shape) : Shape :=
  { shape with
    defaultNumeric := shape.defaultNumeric.join v
    defaultOther := shape.defaultOther.join v
    properties := shape.properties.mapValues (·.join v) }

/-- A property that is stored holds the value, in the place of the old one or joined to it. -/
theorem get_store (strong : Bool) (key other : Key) (v : Value) (shape : Shape) :
    (shape.store strong key v).get other =
      if other = key then (if strong then v else (shape.get key).join v) else shape.get other :=
  get_set shape key other _

/-- A write of unknown name is joined to every property, listed or not. -/
theorem get_storeAny (v : Value) (shape : Shape) (key : Key) :
    (shape.storeAny v).get key = (shape.get key).join v := by
  unfold get default storeAny
  rw [FinMap.get?_mapValues]
  cases shape.properties.get? key with
  | some w => rfl
  | none =>
      simp only [Option.map_none, Option.getD_none]
      split <;> rfl

end Shape

/-! ### Contents -/

/-- What a rule depends on in a state. -/
@[ext] structure Contents where
  registers : Lookup Register Value
  shapes : Lookup Label Shape
  /-- The function that the state belongs to. -/
  function : Nat

/-- The contents of a state. -/
def State.contents (s : State) : Contents :=
  ⟨s.registers.get?, s.shapes, s.function⟩

/-- The object that holds a variable, as it is seen from a function. -/
def Function.variableLabel (f : Function) (name : String) : Label :=
  if !f.isMain && f.declares name then .activation f.index else .global

namespace Contents

/-- The value of a register, which must have been written. -/
def readRegister (c : Contents) (r : Register) : Except Error Value :=
  match c.registers r with
  | some v => .ok v
  | none => .error (.analysis (.undefinedRegister r))

/-- Write a register. -/
def write (c : Contents) (r : Register) (v : Value) : Contents :=
  { c with registers := fun other => if other = r then some v else c.registers other }

/-- Write a register, if there is one. -/
def write? (c : Contents) (r : Option Register) (v : Value) : Contents :=
  match r with
  | some r => c.write r v
  | none => c

/-- Change the shapes of some labels. -/
def change (c : Contents) (labels : LabelSet) (f : Option Shape → Option Shape) : Contents :=
  { c with shapes := fun label => if label ∈ labels then f (c.shapes label) else c.shapes label }

/-- Store a new object without properties. A label that has an object already stands for both
    afterwards. -/
def allocate (c : Contents) (label : Label) : Contents :=
  c.change (FinSet.singleton label) fun shape? =>
    some (match shape? with
      | some existing => existing.join .absentModified
      | none => .absentModified)

/-- Write a property of every object of some labels. With one label the old value goes, with several
    it stays possible. -/
def writeProperty (c : Contents) (labels : LabelSet) (key : Key) (v : Value) : Contents :=
  c.change labels fun shape? =>
    some ((shape?.getD .absentModified).store (labels.size = 1) key v.joinModified)

/-- Write a property of unknown name of every object of some labels. -/
def writeAnyProperty (c : Contents) (labels : LabelSet) (v : Value) : Contents :=
  c.change labels (Option.map (Shape.storeAny v.joinAbsent.joinModified))

/-- The shapes of some labels, in the order of the labels. -/
def shapesOf (c : Contents) (labels : LabelSet) : List Shape :=
  labels.toList.filterMap c.shapes

/-- Read a property of every object of some labels. -/
def readProperty (c : Contents) (labels : LabelSet) (key : Key) : Value :=
  (c.shapesOf labels).foldl (fun v shape => v.join (shape.get key)) .none

/-- Read any property of every object of some labels. -/
def readAnyProperty (c : Contents) (labels : LabelSet) : Value :=
  (c.shapesOf labels).foldl (fun v shape => (State.anyPropertyValues shape).foldl Value.join v)
    .none

/-- Read a variable. -/
def readVariable (c : Contents) (f : Function) (name : String) : Value :=
  State.readAs (((c.shapes (f.variableLabel name)).map fun shape => shape.get (.name name)).getD
    .absent)

/-- Keep the `arguments` object of a function in step with a parameter that is written. -/
def writeArgument (c : Contents) (f : Function) (name : String) (v : Value) : Contents :=
  match f.parameterIndex? name with
  | none => c
  | some index =>
    if (c.shapes (.arguments f.index)).isSome then
      c.writeProperty (FinSet.singleton (.arguments f.index)) (.name (toString index)) v
    else c

/-- Write a variable. -/
def writeVariable (c : Contents) (f : Function) (name : String) (v : Value) : Contents :=
  (c.writeProperty (FinSet.singleton (f.variableLabel name)) (.name name) v).writeArgument f name v

/-- The join of two contents. The function stays that of the first. -/
def join (c d : Contents) : Contents where
  registers := c.registers.join Value.join d.registers
  shapes := c.shapes.join Shape.join d.shapes
  function := c.function

/-- The second contents add nothing to a register or to an object. -/
structure Covers (c d : Contents) : Prop where
  registers : c.registers.Covers Value.join d.registers
  shapes : c.shapes.Covers Shape.join d.shapes

/-! What the operations leave alone. -/

section

variable (c : Contents) (r : Register) (r? : Option Register) (labels : LabelSet) (label : Label)
  (key : Key) (f : Function) (name : String) (v : Value)

/-- The other registers keep their values. -/
theorem registers_write (other : Register) :
    (c.write r v).registers other = if other = r then some v else c.registers other := rfl

/-- Only the result is written, if there is one. -/
theorem registers_write? (other : Register) :
    (c.write? r? v).registers other = if r? = some other then some v else c.registers other := by
  cases r? with
  | none => rfl
  | some r =>
      show (if other = r then _ else _) = _
      by_cases same : other = r
      · simp [same]
      · simp [same, Ne.symm same]

@[simp] theorem shapes_write : (c.write r v).shapes = c.shapes := rfl

@[simp] theorem shapes_write? : (c.write? r? v).shapes = c.shapes := by
  cases r? <;> rfl

@[simp] theorem registers_allocate : (c.allocate label).registers = c.registers := rfl

@[simp] theorem registers_writeProperty :
    (c.writeProperty labels key v).registers = c.registers := rfl

@[simp] theorem registers_writeAnyProperty :
    (c.writeAnyProperty labels v).registers = c.registers := rfl

/-- A variable lives in the heap, so that writing it leaves the registers alone. -/
@[simp] theorem registers_writeVariable :
    (c.writeVariable f name v).registers = c.registers := by
  unfold writeVariable writeArgument
  split
  · rfl
  · split <;> rfl

end

/-- Keeping the `arguments` object in step changes nothing but shapes. -/
theorem writeArgument_frame (c : Contents) (f : Function) (name : String) (v : Value) :
    c.writeArgument f name v = { c with shapes := (c.writeArgument f name v).shapes } := by
  unfold writeArgument
  split
  · rfl
  · split <;> rfl

end Contents

/-! ### Changes of the heap -/

@[simp] theorem FinSet.toList_singleton {α : Type} [Ord α] [Std.TransOrd α] (a : α) :
    (FinSet.singleton a).toList = [a] := rfl

/-- A default is legal after a join with a value that may be absent. -/
theorem HeapObject.legalDefault_join (v w : Value) (absent : w.flags.absent = true) :
    legalDefault (v.join w) = true := by
  unfold legalDefault
  cases unknownOne : v.isUnknown || w.isUnknown with
  | true => simp [Value.isUnknown_join, unknownOne]
  | false =>
      obtain ⟨knownLeft, knownRight⟩ := Bool.or_eq_false_iff.mp unknownOne
      by_cases same : v = w
      · subst same
        simp [Value.join_same knownLeft, Value.maybeAbsent, absent]
      · simp [Value.join_of_ne knownLeft knownRight same, Value.maybeAbsent, Flags.join, absent]

namespace State

/-- The contents have the shape of every object that the state holds. -/
theorem shapes_of_object {s : State} {label : Label} {o : HeapObject}
    (held : s.object? label = some o) : s.contents.shapes label = some o.shape := by
  simp [contents, shapes, held]

/-- The second state differs from the first in its heap, which has the given shapes. -/
structure Changes (s s' : State) (shapes : Lookup Label Shape) : Prop where
  frame : s' = { s with heap := s'.heap }
  shapes : s'.shapes = shapes

/-- A change of the heap is one of the shapes, and of nothing else in the contents. -/
theorem Changes.contents {s s' : State} {shapes : Lookup Label Shape}
    (changes : s.Changes s' shapes) : s'.contents = { s.contents with shapes := shapes } := by
  unfold State.contents
  rw [changes.shapes, changes.frame]

/-- Of two changes of the heap the second decides what the shapes are. -/
theorem Changes.trans {s s' s'' : State} {first second : Lookup Label Shape}
    (before : s.Changes s' first) (after : s'.Changes s'' second) : s.Changes s'' second where
  frame := by rw [after.frame, before.frame]
  shapes := after.shapes

/-- An object that was made ready may be changed. -/
@[simp] theorem writable_ready (cell : Cell) (copyOnWriteDisabled : Bool) :
    (cell.ready copyOnWriteDisabled).writable = true := by
  unfold Cell.ready
  split
  · simp_all
  · split <;> rfl

theorem shapes_insertCell (s : State) (label : Label) (cell : Cell) :
    ({ s with heap := s.heap.insert label cell } : State).shapes = fun other =>
      if other = label then some cell.object.shape else s.shapes other := by
  funext other
  unfold shapes object?
  rw [FinMap.get?_insert]
  split <;> rfl

/-- A new object is joined to the one that its label stands for already. -/
theorem shapes_newObject (s : State) (label : Label) (o : HeapObject) :
    (s.newObject label o).shapes = fun other =>
      if other = label then
        some (match s.shapes label with
          | some existing => existing.join o.shape
          | none => o.shape)
      else s.shapes other := by
  unfold newObject
  rw [shapes_insertCell]
  unfold shapes
  cases s.object? label <;> rfl

/-- A change of an object of which the shape does not depend on who holds the object. -/
theorem modifyObject_changes {s : State} {label : Label} {shape : Shape}
    (found : s.shapes label = some shape) {f : HeapObject → Except Error HeapObject}
    {g : Shape → Shape}
    (change : ∀ o : HeapObject, o.writable = true → ∃ o', f o = .ok o' ∧ o'.shape = g o.shape) :
    ∃ s', s.modifyObject label f = .ok s' ∧
      s.Changes s' fun other => if other = label then some (g shape) else s.shapes other := by
  obtain ⟨object, foundObject, rfl⟩ := Option.map_eq_some_iff.mp found
  obtain ⟨cell, foundCell, rfl⟩ := Option.map_eq_some_iff.mp foundObject
  obtain ⟨o, changed, sameShape⟩ := change (cell.ready s.copyOnWriteDisabled) (writable_ready _ _)
  refine ⟨{ s with heap := s.heap.insert label ⟨o, .owned⟩ }, ?_, rfl, ?_⟩
  · simp only [modifyObject, foundCell, changed]
    rfl
  · rw [shapes_insertCell, sameShape, shape_ready]

/-- A missing object is made without properties, and one that is there stays. -/
theorem ensureObject_changes (s : State) (label : Label) :
    s.Changes (s.ensureObject label) fun other =>
      if other = label then some ((s.shapes label).getD .absentModified) else s.shapes other := by
  unfold ensureObject
  split
  · rename_i present
    refine ⟨rfl, ?_⟩
    funext other
    obtain ⟨cell, found⟩ := FinMap.contains_eq_true_iff.mp present
    split
    · rename_i same
      subst same
      simp [shapes, object?, found]
    · rfl
  · rename_i missing
    refine ⟨rfl, ?_⟩
    have none : s.shapes label = Option.none := by
      unfold shapes object?
      cases found : s.heap.get? label with
      | none => rfl
      | some cell => exact absurd (FinMap.contains_eq_true_iff.mpr ⟨cell, found⟩) missing
    rw [shapes_insertCell, none]
    rfl

/-- A property can be stored under any label, also under one that has no object yet. -/
theorem storeProperty_changes (strong : Bool) (key : Key) (v : Value) (s : State) (label : Label) :
    ∃ s', storeProperty strong key v s label = .ok s' ∧ s.Changes s' fun other =>
      if other = label then some (((s.shapes label).getD .absentModified).store strong key v)
      else s.shapes other := by
  have ensured := ensureObject_changes s label
  have found : (s.ensureObject label).shapes label =
      some ((s.shapes label).getD .absentModified) := by
    rw [ensured.shapes]
    exact if_pos rfl
  have change : ∀ o : HeapObject, o.writable = true →
      ∃ o', o.setProperty key (if strong then v else (o.shape.get key).join v) = .ok o' ∧
        o'.shape = o.shape.store strong key v :=
    fun o writable => ⟨_, if_pos writable, rfl⟩
  obtain ⟨s', stored, changes⟩ := modifyObject_changes found change
  refine ⟨s', stored, (ensured.trans changes).frame, ?_⟩
  rw [changes.shapes, ensured.shapes]
  funext other
  split <;> simp_all

/-- A write of unknown name makes no object. It does not fail on one that is there, since the value
    may be absent. -/
theorem storeAnyProperty_changes (v : Value) (absent : v.flags.absent = true) (s : State)
    (label : Label) :
    ∃ s', storeAnyProperty v s label = .ok s' ∧ s.Changes s' fun other =>
      if other = label then (s.shapes label).map (Shape.storeAny v) else s.shapes other := by
  unfold storeAnyProperty
  cases found : s.heap.get? label with
  | none =>
      have missing : s.heap.contains label = false := by simp [FinMap.contains, found]
      have none : s.shapes label = Option.none := by simp [shapes, object?, found]
      refine ⟨s, by simp [missing], rfl, ?_⟩
      funext other
      split
      · rename_i same
        rw [same, none]
        rfl
      · rfl
  | some cell =>
      have present : s.heap.contains label = true := by simp [FinMap.contains, found]
      have shape : s.shapes label = some cell.object.shape := by simp [shapes, object?, found]
      rw [if_pos present, shape]
      refine modifyObject_changes shape (g := Shape.storeAny v) ?_
      intro o writable
      refine ⟨{ o with shape := o.shape.storeAny v, storage := .owned }, ?_, rfl⟩
      simp only [HeapObject.setDefaultNumeric, HeapObject.setDefaultOther, HeapObject.setDefault,
        HeapObject.changeSlots, HeapObject.setProperties, HeapObject.changeProperties, writable,
        HeapObject.legalDefault_join _ v absent, Bool.not_true, Bool.false_eq_true, if_true,
        if_false, bind, Except.bind]
      rfl

/-- Changes of one label after the other, none of which fails. -/
theorem foldlM_changes {f : State → Label → Except Error State} {g : Option Shape → Option Shape}
    (each : ∀ s label, ∃ s', f s label = .ok s' ∧ s.Changes s' fun other =>
      if other = label then g (s.shapes label) else s.shapes other)
    (labels : List Label) (distinct : labels.Nodup) (s : State) :
    ∃ s', labels.foldlM f s = .ok s' ∧ s.Changes s' fun label =>
      if label ∈ labels then g (s.shapes label) else s.shapes label := by
  induction labels generalizing s with
  | nil => exact ⟨s, rfl, rfl, by simp⟩
  | cons label rest ih =>
      obtain ⟨notLater, distinctRest⟩ := List.nodup_cons.mp distinct
      obtain ⟨s₁, first, changed⟩ := each s label
      obtain ⟨s', later, changedRest⟩ := ih distinctRest s₁
      refine ⟨s', by rw [List.foldlM_cons, first]; exact later,
        (changed.trans changedRest).frame, ?_⟩
      rw [changedRest.shapes, changed.shapes]
      funext other
      by_cases same : other = label
      · subst same
        simp [notLater]
      · simp [same]

/-- A property can be stored under all of some labels, strongly or weakly. -/
theorem foldlM_storeProperty_changes (strong : Bool) (key : Key) (v : Value) (labels : LabelSet)
    (s : State) :
    ∃ s', labels.toList.foldlM (storeProperty strong key v) s = .ok s' ∧
      s.Changes s' (s.contents.change labels fun shape? =>
        some ((shape?.getD .absentModified).store strong key v)).shapes := by
  obtain ⟨s', done, changes⟩ := foldlM_changes
    (g := fun shape? => some ((shape?.getD .absentModified).store strong key v))
    (storeProperty_changes strong key v) labels.toList labels.nodup_toList s
  refine ⟨s', done, changes.frame, ?_⟩
  rw [changes.shapes]
  funext label
  simp only [Contents.change, FinSet.mem_toList]
  rfl

/-- A write of a property never fails, and does to the shapes what it does to contents. -/
theorem writeProperty_changes (s : State) (labels : LabelSet) (key : Key) (v : Value) :
    ∃ s', s.writeProperty labels key v = .ok s' ∧
      s.Changes s' (s.contents.writeProperty labels key v).shapes :=
  foldlM_storeProperty_changes _ key v.joinModified labels s

/-- So does a write of unknown name. -/
theorem writeAnyProperty_changes (s : State) (labels : LabelSet) (v : Value) :
    ∃ s', s.writeAnyProperty labels v = .ok s' ∧
      s.Changes s' (s.contents.writeAnyProperty labels v).shapes := by
  obtain ⟨s', done, changes⟩ := foldlM_changes
    (g := Option.map (Shape.storeAny v.joinAbsent.joinModified))
    (storeAnyProperty_changes v.joinAbsent.joinModified rfl) labels.toList labels.nodup_toList s
  refine ⟨s', done, changes.frame, ?_⟩
  rw [changes.shapes]
  funext label
  simp only [Contents.writeAnyProperty, Contents.change, FinSet.mem_toList]
  rfl

/-! ### The other operations -/

/-- Writing a register of a state writes it in the contents. -/
theorem contents_writeRegister (s : State) (r : Register) (v : Value) :
    (s.writeRegister r v).contents = s.contents.write r v := by
  refine Contents.ext ?_ rfl rfl
  funext other
  exact FinMap.get?_insert s.registers r other v

/-- Making an object in a state makes it in the contents. -/
theorem contents_allocate (s : State) (label : Label) :
    (s.newObject label (.ofShape .absentModified)).contents = s.contents.allocate label := by
  refine Contents.ext rfl ?_ rfl
  show (s.newObject label (.ofShape .absentModified)).shapes = _
  rw [shapes_newObject]
  funext other
  by_cases same : other = label
  · simp only [Contents.allocate, Contents.change, same, FinSet.mem_singleton, if_true]
    rfl
  · simp only [Contents.allocate, Contents.change, same, FinSet.mem_singleton, if_false]
    rfl

/-- The join of two states has the join of their contents. -/
theorem contents_join (s other : State) :
    (s.join other).2.contents = s.contents.join other.contents :=
  Contents.ext (registers_join s other) (shapes_join s other) rfl

/-- A join says that nothing has changed if and only if the contents cover those that are joined. -/
theorem join_changes_iff_contents {s other : State} :
    (s.join other).1 = false ↔ s.contents.Covers other.contents :=
  join_changes_iff.trans ⟨fun covers => ⟨covers.registers, covers.shapes⟩,
    fun covers => ⟨covers.registers, covers.shapes⟩⟩

/-- Freezing the heap does not show in the contents. -/
theorem contents_freezeHeap (s : State) : s.freezeHeap.contents = s.contents :=
  Contents.ext rfl (shapes_freezeHeap s) rfl

theorem objectsOf_shapes (s : State) (labels : LabelSet) :
    (s.objectsOf labels).map HeapObject.shape = s.contents.shapesOf labels := by
  unfold objectsOf Contents.shapesOf
  rw [List.map_filterMap]
  rfl

/-- A property of a state reads as it does in its contents. -/
theorem readProperty_contents (s : State) (labels : LabelSet) (key : Key) :
    s.readProperty labels key = s.contents.readProperty labels key := by
  unfold readProperty Contents.readProperty
  rw [← objectsOf_shapes, List.foldl_map]

theorem readAnyProperty_contents (s : State) (labels : LabelSet) :
    s.readAnyProperty labels = s.contents.readAnyProperty labels := by
  unfold readAnyProperty Contents.readAnyProperty
  rw [← objectsOf_shapes, List.foldl_map]

/-- The object that a variable lives in does not depend on the interner. -/
theorem variableObject_eq (t : Interner) (f : Function) (name : String) :
    (variableObject t f name).1 = f.variableLabel name := by
  unfold variableObject Function.variableLabel
  split <;> rfl

/-- A variable of a state reads as it does in its contents, with any interner. -/
theorem readVariable_contents (s : State) (t : Interner) (f : Function) (name : String) :
    (s.readVariable t f name).1 = s.contents.readVariable f name := by
  rw [readVariable_fst, variableObject_eq]
  unfold Contents.readVariable contents shapes
  rw [Option.map_map]
  rfl

end State

end ScriptHeap
