import ScriptHeap.Proofs.Transfer.Step

/-!
# What steps keep of every value

A property of values that holds of literals and of new objects, and that is kept by joins and by
changes of the flags of a slot, holds of everything in the contents after a step if it did before
(`Contents.Steps.each`). Well-formedness is one such property (`Value.closed_wellFormed`).
-/

namespace ScriptHeap

/-- A property of values that the ordinary rules keep where they make no object. -/
structure Value.Kept (P : Value → Prop) : Prop where
  flags : ∀ flags : Flags, flags.unknown = false → P (.ofFlags flags)
  string : ∀ s, P (.ofString s)
  join : ∀ {v w}, P v → P w → P (v.join w)
  /-- The flags that say nothing of what the value may be can change. -/
  reflag : ∀ {v : Value} {flags : Flags}, P v → flags.anyString = v.flags.anyString →
    flags.unknown = v.flags.unknown → P { v with flags }
  collapse : ∀ {v : Value}, P v → P v.collapse

/-- A property of values that the ordinary rules keep, of which one makes objects of a label. -/
structure Value.Closed (P : Value → Prop) (label : Label) : Prop extends Value.Kept P where
  object : P (.object label)

theorem Value.closed_wellFormed (label : Label) : Closed WellFormed label where
  flags := fun flags _ => .ofFlags flags
  string := .ofString
  object := .objects _
  join := fun left right => left.join right
  reflag := fun formed any unknown => formed.of_same rfl rfl any unknown
  collapse := .collapse

/-- A property of slots that an empty object has, and that joins keep. -/
structure Value.SlotClosed (P : Value → Prop) : Prop where
  absent : P .absentModified
  join : ∀ {v w}, P v → P w → P (v.join w)

theorem Value.Kept.slots {P : Value → Prop} (kept : Kept P) : SlotClosed P :=
  ⟨kept.flags _ rfl, kept.join⟩

/-! ### Shapes -/

/-- Every slot has the property. -/
def Shape.Each (P : Value → Prop) (shape : Shape) : Prop := ∀ slot, P (shape.getSlot slot)

namespace Shape.Each

variable {P : Value → Prop} {label : Label} {shape : Shape}

theorem value (each : shape.Each P) {v : Value} (member : v ∈ shape.properties.values) : P v := by
  obtain ⟨key, found⟩ := FinMap.mem_values_iff.mp member
  exact get_of_listed found ▸ each (.property key)

/-- A shape keeps a property of its slots when one is set to a value with the property. -/
theorem set (each : shape.Each P) (key : Key) {v : Value} (holds : P v) :
    (shape.set key v).Each P := by
  intro slot
  cases slot with
  | property other =>
      show P ((shape.set key v).get other)
      rw [get_set]
      split
      · exact holds
      · exact each (.property other)
  | defaultNumeric => exact each .defaultNumeric
  | defaultOther => exact each .defaultOther
  | internalValue => exact each .internalValue
  | internalPrototype => exact each .internalPrototype

theorem foldl_set {α : Type} {key : α → Key} {value : α → Value} (each : shape.Each P)
    (items : List α) (values : ∀ item ∈ items, P (value item)) :
    (items.foldl (fun shape item => shape.set (key item) (value item)) shape).Each P := by
  induction items generalizing shape with
  | nil => exact each
  | cons item rest ih =>
      exact ih (each.set (key item) (values item List.mem_cons_self))
        fun other member => values other (List.mem_cons_of_mem _ member)

end Shape.Each

namespace State

variable {P : Value → Prop}

/-- An argument that is not given is undefined. -/
theorem argument_slot (missing : P Value.undefined.joinModified) {arguments : List Value}
    (each : ∀ v ∈ arguments, P v.joinModified) (i : Nat) :
    P (arguments.getD i .undefined).joinModified := by
  rw [List.getD_eq_getElem?_getD]
  cases found : arguments[i]? with
  | none => exact missing
  | some v => exact each v (List.mem_of_getElem? found)

/-- What is written to a new activation object: an argument, or `undefined`. -/
theorem activation_slot (missing : P Value.undefined.joinModified) {arguments : List Value}
    (each : ∀ v ∈ arguments, P v.joinModified) (f : Function) :
    ∀ entry ∈ (f.parameters.zipIdx.map fun entry =>
        (Key.name entry.1, (arguments.getD entry.2 .undefined).joinModified)) ++
        f.locals.map fun name => (Key.name name, Value.undefined.joinModified),
      P entry.2 := by
  intro entry member
  rcases List.mem_append.mp member with parameter | declared
  · obtain ⟨⟨name, i⟩, _, rfl⟩ := List.mem_map.mp parameter
    exact argument_slot missing each i
  · obtain ⟨name, _, rfl⟩ := List.mem_map.mp declared
    exact missing

end State

namespace Value.SlotClosed

variable {P : Value → Prop} (slots : SlotClosed P) {shape : Shape}

include slots

theorem empty : Shape.absentModified.Each P := by
  intro place
  cases place with
  | property key =>
      show P (Shape.absentModified.default key)
      unfold Shape.default
      split <;> exact slots.absent
  | defaultNumeric | defaultOther | internalValue | internalPrototype => exact slots.absent

/-- A join of shapes keeps a property of slots that joins keep. -/
theorem joined {other : Shape} (left : shape.Each P) (right : other.Each P) :
    (shape.join other).Each P := by
  intro slot
  rw [Shape.getSlot_join]
  exact slots.join (left slot) (right slot)

theorem store (each : shape.Each P) (strong : Bool) (key : Key) {v : Value} (holds : P v) :
    (shape.store strong key v).Each P := by
  refine each.set key ?_
  split
  · exact holds
  · exact slots.join (each (.property key)) holds

theorem storeAny (each : shape.Each P) {v : Value} (holds : P v) : (shape.storeAny v).Each P := by
  intro slot
  cases slot with
  | property key =>
      show P ((shape.storeAny v).get key)
      rw [Shape.get_storeAny]
      exact slots.join (each (.property key)) holds
  | defaultNumeric => exact slots.join (each .defaultNumeric) holds
  | defaultOther => exact slots.join (each .defaultOther) holds
  | internalValue => exact each .internalValue
  | internalPrototype => exact each .internalPrototype

end Value.SlotClosed

namespace Shape.Each

variable {P : Value → Prop} {label : Label} {shape : Shape}

theorem absentModified (closed : Value.Closed P label) : Shape.absentModified.Each P :=
  closed.slots.empty

theorem join (closed : Value.Closed P label) {other : Shape} (left : shape.Each P)
    (right : other.Each P) : (shape.join other).Each P :=
  closed.slots.joined left right

end Shape.Each

/-! ### Contents -/

namespace Contents

/-- Every register and every slot has the property. -/
structure Each (P : Value → Prop) (c : Contents) : Prop where
  registers : Lookup.All P c.registers
  shapes : Lookup.All (Shape.Each P) c.shapes

variable {P : Value → Prop} {c c' : Contents} {program : FlowGraph} {node : Node}

/-- The value that is written to a slot. -/
theorem slotted {label : Label} (closed : Value.Closed P label) {v : Value} (holds : P v) :
    P v.joinModified :=
  closed.reflag holds rfl rfl

theorem foldl_join {α : Type} (kept : Value.Kept P) {f : α → Value}
    (items : List α) (each : ∀ item ∈ items, P (f item)) {v : Value} (start : P v) :
    P (items.foldl (fun v item => v.join (f item)) v) := by
  induction items generalizing v with
  | nil => exact start
  | cons item rest ih =>
      exact ih (fun other member => each other (List.mem_cons_of_mem _ member))
        (kept.join start (each item List.mem_cons_self))

theorem Each.shapesOf (each : c.Each P) {labels : LabelSet} {shape : Shape}
    (member : shape ∈ c.shapesOf labels) : shape.Each P := by
  obtain ⟨label, _, found⟩ := List.mem_filterMap.mp member
  exact each.shapes label shape found

/-- Reading a property joins slots, and so keeps a property of values that joins keep. -/
theorem Each.readProperty (kept : Value.Kept P) (each : c.Each P) (labels : LabelSet) (key : Key) :
    P (c.readProperty labels key) :=
  foldl_join kept _ (fun _ member => each.shapesOf member (.property key)) (kept.flags {} rfl)

theorem Each.readAnyProperty (kept : Value.Kept P) (each : c.Each P) (labels : LabelSet) :
    P (c.readAnyProperty labels) := by
  have shapes : ∀ shape ∈ c.shapesOf labels, shape.Each P := fun _ => each.shapesOf
  have start : P .none := kept.flags {} rfl
  unfold Contents.readAnyProperty
  generalize c.shapesOf labels = items at shapes
  generalize Value.none = v at start
  induction items generalizing v with
  | nil => exact start
  | cons shape rest ih =>
      have first := shapes shape List.mem_cons_self
      refine ih (fun other member => shapes other (List.mem_cons_of_mem _ member)) _ ?_
      refine foldl_join kept (f := id) _ (fun w member => ?_) start
      rcases List.mem_cons.mp member with rfl | member
      · exact first .defaultNumeric
      · rcases List.mem_cons.mp member with rfl | member
        · exact first .defaultOther
        · exact first.value member

theorem readAs_of_kept (kept : Value.Kept P) {v : Value} (holds : P v) :
    P (State.readAs v) := by
  have present : P v.notAbsent.notModified.withoutAttributes :=
    kept.reflag (v := v) holds rfl rfl
  unfold State.readAs
  dsimp only
  split
  · exact kept.join present (kept.flags _ rfl)
  · exact present

/-- The results of a node have a property that is kept, if the object it makes has it. -/
theorem Results.holds (kept : Value.Kept P) (made : node.Makes → P (.object node.label))
    (each : c.Each P) {v : Value} (result : Results program node c v) : P v := by
  cases result with
  | @constant _ value _ =>
      cases value with
      | string s => exact kept.string s
      | boolean b => cases b <;> exact kept.flags _ rfl
      | undefined | null | number => exact kept.flags _ rfl
  | @readVariable f name _ =>
      refine readAs_of_kept kept ?_
      cases found : c.shapes (f.variableLabel name) with
      | none => exact kept.flags _ rfl
      | some shape => exact each.shapes _ shape found (.property (.name name))
  | @readProperty _ _ u key _ _ =>
      have raw : P (key.elim (c.readAnyProperty u.labels) (c.readProperty u.labels)) := by
        cases key with
        | none => exact each.readAnyProperty kept _
        | some key => exact each.readProperty kept _ key
      unfold readThrough
      dsimp only
      split
      · exact kept.join (readAs_of_kept kept raw) (kept.flags _ rfl)
      · exact readAs_of_kept kept raw
  | object makes => exact made makes
  | anyPrimitive => exact kept.flags _ rfl
  | @operator _ _ op u v _ _ =>
      cases op with
      | add =>
          show P (BinaryOperator.sum u v)
          unfold BinaryOperator.sum
          split
          · exact kept.string _
          · split
            · exact kept.join (kept.flags _ rfl) (kept.flags _ rfl)
            · exact kept.flags _ rfl
      | sub | mul | div | eq | strictEq | lt => exact kept.flags _ rfl

/-- A change of some labels keeps what holds of all shapes, if it keeps it for one. -/
theorem all_change {Q : Shape → Prop} (all : Lookup.All Q c.shapes) (labels : LabelSet)
    {f : Option Shape → Option Shape}
    (keeps : ∀ shape?, (∀ shape, shape? = some shape → Q shape) →
      ∀ shape, f shape? = some shape → Q shape) :
    Lookup.All Q (c.change labels f).shapes := by
  intro label shape found
  unfold change at found
  dsimp only at found
  split at found
  · exact keeps _ (all label) shape found
  · exact all label shape found

end Contents

namespace Value.SlotClosed

variable {P : Value → Prop} (slots : SlotClosed P) {c : Contents}
  (each : Lookup.All (Shape.Each P) c.shapes)

include slots each

theorem allocate (made : Label) : Lookup.All (Shape.Each P) (c.allocate made).shapes := by
  refine Contents.all_change each _ ?_
  intro shape? all shape found
  cases found
  cases shape? with
  | none => exact slots.empty
  | some old => exact slots.joined (all old rfl) slots.empty

theorem change (labels : LabelSet) (strong : Bool) (key : Key) {v : Value} (holds : P v) :
    Lookup.All (Shape.Each P) (c.change labels fun shape? =>
      some ((shape?.getD .absentModified).store strong key v)).shapes := by
  refine Contents.all_change each labels ?_
  intro shape? all shape found
  cases found
  cases shape? with
  | none => exact slots.store slots.empty _ key holds
  | some old => exact slots.store (all old rfl) _ key holds

theorem writeAnyProperty (labels : LabelSet) {v : Value} (holds : P v.joinAbsent.joinModified) :
    Lookup.All (Shape.Each P) (c.writeAnyProperty labels v).shapes := by
  refine Contents.all_change each labels ?_
  intro shape? all shape found
  obtain ⟨old, rfl, rfl⟩ := Option.map_eq_some_iff.mp found
  exact slots.storeAny (all old rfl) holds

/-- Writing a variable keeps a property of slots that the written value has. -/
theorem writeVariable (f : Function) (name : String) {v : Value} (holds : P v.joinModified) :
    Lookup.All (Shape.Each P) (c.writeVariable f name v).shapes := by
  have first : Lookup.All (Shape.Each P) (c.writeProperty _ (.name name) v).shapes :=
    slots.change each (FinSet.singleton (f.variableLabel name)) _ _ holds
  unfold Contents.writeVariable Contents.writeArgument
  split
  · exact first
  · split
    · exact slots.change first _ _ _ holds
    · exact first

end Value.SlotClosed

namespace Contents

variable {P : Value → Prop} {c c' : Contents} {program : FlowGraph} {node : Node} {label : Label}
  (closed : Value.Closed P label)

include closed

/-- A join of contents keeps a property of values that joins keep. -/
theorem Each.join {d : Contents} (left : c.Each P) (right : d.Each P) : (c.join d).Each P where
  registers := left.registers.join_closed closed.join right.registers
  shapes := left.shapes.join_closed (fun own other => own.join closed other) right.shapes

theorem Each.allocate (each : Lookup.All (Shape.Each P) c.shapes) (made : Label) :
    Lookup.All (Shape.Each P) (c.allocate made).shapes :=
  closed.slots.allocate each made

theorem Each.store (each : Lookup.All (Shape.Each P) c.shapes) (labels : LabelSet) (strong : Bool)
    (key : Key) {v : Value} (holds : P v) :
    Lookup.All (Shape.Each P) (c.change labels fun shape? =>
      some ((shape?.getD .absentModified).store strong key v.joinModified)).shapes :=
  closed.slots.change each labels strong key (slotted closed holds)

theorem Each.writeProperty (each : Lookup.All (Shape.Each P) c.shapes) (labels : LabelSet)
    (key : Key) {v : Value} (holds : P v) :
    Lookup.All (Shape.Each P) (c.writeProperty labels key v).shapes :=
  Each.store closed each labels _ key holds

theorem Each.writeVariable (each : Lookup.All (Shape.Each P) c.shapes) (f : Function)
    (name : String) {v : Value} (holds : P v) :
    Lookup.All (Shape.Each P) (c.writeVariable f name v).shapes :=
  closed.slots.writeVariable each f name (slotted closed holds)

omit closed

/-- A step keeps a property of slots, if what it can write to a slot has it. -/
theorem Steps.slots (slots : Value.SlotClosed P) (steps : Steps program node c c')
    (each : Lookup.All (Shape.Each P) c.shapes)
    (written : ∀ r v, c.registers r = some v → P v.withoutAttributes.collapse.joinModified ∧
      P v.withoutAttributes.joinModified ∧ P v.withoutAttributes.joinAbsent.joinModified) :
    Lookup.All (Shape.Each P) c'.shapes := by
  cases steps with
  | constant | readVariable | binaryOperator | idle => exact each
  | readProperty | call =>
      rw [shapes_write?]
      exact each
  | writeVariable _ value => exact slots.writeVariable each _ _ (written _ _ value).1
  | @writeProperty _ _ _ _ _ key _ _ value _ =>
      obtain ⟨_, stored, widened⟩ := written _ _ value
      cases key with
      | none => exact slots.writeAnyProperty each _ widened
      | some key => exact slots.change each _ _ key stored
  | newObject => exact slots.allocate each _
  | construct =>
      rw [shapes_write?]
      exact slots.allocate each _

/-- A step keeps a property of every value, if the object that it makes has it. -/
theorem Steps.each_of_kept (kept : Value.Kept P) (made : node.Makes → P (.object node.label))
    (steps : Steps program node c c') (each : c.Each P) : c'.Each P where
  registers := by
    intro r v found
    rcases steps.register found with old | result
    · exact each.registers r v old
    · exact result.holds kept made each
  shapes := by
    refine steps.slots kept.slots each.shapes ?_
    intro r v found
    have bare : P v.withoutAttributes := kept.reflag (each.registers r v found) rfl rfl
    refine ⟨kept.reflag (kept.collapse bare) rfl rfl, kept.reflag bare rfl rfl, ?_⟩
    exact kept.reflag (v := v.withoutAttributes) bare rfl rfl

/-- A step keeps a closed property of every value. -/
theorem Steps.each (closed : Value.Closed P node.label) (steps : Steps program node c c')
    (each : c.Each P) : c'.Each P :=
  steps.each_of_kept closed.toKept (fun _ => closed.object) each

end Contents

end ScriptHeap
