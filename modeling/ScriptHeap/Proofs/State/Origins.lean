import ScriptHeap.Proofs.State.Holders

/-!
# Where objects come from

All objects are made from the templates, by operations on objects and by operations on states
(`HeapObject.Made`). What they are made with is left open: the values that are written and the
resolvers that are asked can be any that are allowed. A property of shapes that the operations keep
holds of all objects that are made (`HeapObject.Made.shape`), and for operations on states it is
enough to know what happens to single objects (`Shape.Kept.stable`).
-/

namespace ScriptHeap

open Fallible

/-! ### Changes of one object -/

/-- What a change of an object makes of its shape. -/
def ObjectChange.reshape (s : Shape) : ObjectChange → Shape
  | .freeze => s
  | .setProperty key v => s.set key v
  | .setProperties properties => { s with properties }
  | .setSlot slot v => s.setSlot slot v
  | .setScope scope => { s with scope }
  | .extendScope chain => { s with scope := s.scope.map (·.join chain) }
  | .clearModified => s.clearModified
  | .replaceLabel old new => s.replaceLabel old new
  | .materialize names => s.materialize (names.map .name)

namespace HeapObject

variable {o o' : HeapObject}

theorem shape_of_setSlot {slot : Slot} {v : Value} (done : o.setSlot slot v = .ok o') :
    o'.shape = o.shape.setSlot slot v := by
  cases slot with
  | property =>
      unfold setSlot setProperty at done
      exact shape_of_changeProperties done
  | internalValue =>
      unfold setSlot setInternalValue at done
      exact shape_of_changeSlots done
  | internalPrototype =>
      unfold setSlot setInternalPrototype at done
      exact shape_of_changeSlots done
  | defaultNumeric | defaultOther => exact shape_of_changeSlots (of_setDefault done).2

theorem shape_of_extendScope {chain : ScopeChain} {changed : Bool}
    (done : o.extendScope chain = .ok (changed, o')) :
    o'.shape = { o.shape with scope := o.shape.scope.map (·.join chain) } := by
  unfold extendScope at done
  split at done
  · cases done
  · split at done
    · cases done
    · rename_i scope
      cases done
      rw [scope]
      rfl

theorem shape_of_apply {change : ObjectChange} {answer : Answer}
    (done : change.apply o = .ok (answer, o')) : o'.shape = change.reshape o.shape := by
  cases change with
  | freeze =>
      cases done
      rfl
  | setProperty | setProperties | clearModified | replaceLabel | materialize =>
      obtain ⟨_, changed, same⟩ := of_map_eq_ok done
      cases same
      exact shape_of_changeProperties changed
  | setSlot =>
      obtain ⟨_, changed, same⟩ := of_map_eq_ok done
      cases same
      exact shape_of_setSlot changed
  | setScope =>
      obtain ⟨_, changed, same⟩ := of_map_eq_ok done
      cases same
      exact shape_of_changeSlots changed
  | extendScope =>
      obtain ⟨⟨_, _⟩, changed, same⟩ := of_map_eq_ok done
      cases same
      exact shape_of_extendScope changed

end HeapObject

/-! ### Properties of shapes that the operations keep -/

/-- A property of shapes that all operations keep, where the values that are written and the
    resolvers that are asked are allowed. -/
structure Shape.Kept (value : Value → Prop) (resolver : Resolver Id → Prop) (P : Shape → Prop) :
    Prop where
  values : Value.WriteClosed value
  slots : ∀ {s}, P s → s.Each value
  template : ∀ t : Template, P t.shape
  change : ∀ {o o' : HeapObject} {answer} (change : ObjectChange), (∀ v ∈ change.values, value v) →
    P o.shape → change.apply o = .ok (answer, o') → P o'.shape
  join : ∀ {s s'}, P s → P s' → P (s.join s')
  relabel : ∀ {s} (r : Relabeling), P s → P (s.relabel r)
  restore : ∀ {s caller} (nodes : FinSet Nat), P s → P caller → P (s.restore caller nodes)
  localize : ∀ {r : Resolver Id} {o template : HeapObject} (label : Label), resolver r →
    P template.shape → P o.shape → P ((HeapObject.localize r template label).run.run o).2.shape

namespace Shape.Kept

variable {value : Value → Prop} {resolver : Resolver Id → Prop} {P : Shape → Prop}
  (kept : Shape.Kept value resolver P)

include kept

theorem foldl_set {ι : Type} (key : ι → Key) (written : ι → Value) (items : List ι)
    (values : ∀ item ∈ items, value (written item)) {s : Shape} (holds : P s) :
    P (items.foldl (fun s item => s.set (key item) (written item)) s) := by
  induction items generalizing s with
  | nil => exact holds
  | cons item rest ih =>
      obtain ⟨first, others⟩ := List.forall_mem_cons.mp values
      refine ih others (kept.change (o := .ofShape s) (.setProperty (key item) (written item)) ?_
        holds rfl)
      exact List.forall_mem_singleton.mpr first

/-- What operations on objects keep, operations on states keep of the objects in their cells. -/
theorem stable : Cell.Stable value fun cell => P cell.object.shape where
  values := kept.values
  slots holds := kept.slots holds
  new key written items values :=
    kept.foldl_set key written items values (kept.template .absentModified)
  ready copyOnWriteDisabled holds := by
    rw [State.shape_ready]
    exact holds
  change change values holds done := kept.change change values holds done
  join first second := kept.join first second
  frozen holds := by
    rw [State.shape_frozen]
    exact holds

end Shape.Kept

theorem State.eachCell_shape_iff {P : Shape → Prop} {s : State} :
    s.EachCell (fun cell => P cell.object.shape) ↔
      ∀ label o, s.object? label = some o → P o.shape := by
  constructor
  · intro each label o held
    obtain ⟨cell, found, rfl⟩ := Option.map_eq_some_iff.mp held
    exact each label cell found
  · intro each label cell found
    exact each label cell.object (Option.map_eq_some_iff.mpr ⟨cell, found, rfl⟩)

/-! ### Objects made from the templates -/

namespace HeapObject

/-- The objects that are made from the templates, by operations on objects and by operations on
    states whose heaps hold such objects, with allowed values and resolvers. -/
inductive Made (value : Value → Prop) (resolver : Resolver Id → Prop) : HeapObject → Prop
  | new (t : Template) : Made value resolver (.ofShape t.shape)
  | template (run : Nat) (t : Template) : Made value resolver (.ofTemplate run t)
  | copy {o} (before : Made value resolver o) : Made value resolver o.copy
  | deepCopy {o} (before : Made value resolver o) : Made value resolver o.deepCopy
  | join {a b} (first : Made value resolver a) (second : Made value resolver b) :
      Made value resolver (a.join b)
  | relabel {o} (r : Relabeling) (before : Made value resolver o) :
      Made value resolver (o.relabel r)
  /-- A setter, or another operation that changes one object. -/
  | change {o o' answer} (change : ObjectChange) (values : ∀ v ∈ change.values, value v)
      (before : Made value resolver o) (done : change.apply o = .ok (answer, o')) :
      Made value resolver o'
  | restore {o o' caller nodes} (before : Made value resolver o)
      (callers : Made value resolver caller) (done : o.restore caller nodes = .ok o') :
      Made value resolver o'
  /-- A localization, also one that the resolver refuses. It asks about each place once, so a
      resolver that remembers answers like one that does not. -/
  | localize {o template : HeapObject} {r : Resolver Id} (allowed : resolver r) (label : Label)
      (before : Made value resolver o) (templates : Made value resolver template) :
      Made value resolver ((HeapObject.localize r template label).run.run o).2
  /-- A write of a state, or another operation that changes one state or an object in its heap. -/
  | write {s s' : State} {t answer label o} (change : StateChange)
      (values : ∀ v ∈ change.values, value v)
      (before : ∀ label o, s.object? label = some o → Made value resolver o)
      (done : (change.apply t s).1 = .ok (answer, s'))
      (held : s'.object? label = some o) : Made value resolver o
  /-- A new object in the heap of a state. -/
  | store {s : State} {stored label o o'}
      (before : ∀ label o, s.object? label = some o → Made value resolver o)
      (added : Made value resolver o') (held : (s.newObject stored o').object? label = some o) :
      Made value resolver o
  | joinState {s other : State} {label o}
      (before : ∀ label o, s.object? label = some o → Made value resolver o)
      (others : ∀ label o, other.object? label = some o → Made value resolver o)
      (held : (s.join other).2.object? label = some o) : Made value resolver o

/-- What all operations keep, all objects that are made have. -/
theorem Made.shape {value : Value → Prop} {resolver : Resolver Id → Prop} {P : Shape → Prop}
    (kept : Shape.Kept value resolver P) {o : HeapObject} (made : o.Made value resolver) :
    P o.shape := by
  induction made with
  | new t | template run t => exact kept.template t
  | copy _ holds | deepCopy _ holds => exact holds
  | join _ _ first second => exact kept.join first second
  | relabel r _ holds => exact kept.relabel r holds
  | change change values _ done holds => exact kept.change change values holds done
  | restore _ _ done holds callers =>
      exact shape_of_changeProperties done ▸ kept.restore _ holds callers
  | localize allowed label _ _ holds templates => exact kept.localize label allowed templates holds
  | write _ values _ done held holds =>
      have each := State.eachCell_shape_iff.mpr holds
      exact State.eachCell_shape_iff.mp (each.change kept.stable values done) _ _ held
  | store _ _ held holds added =>
      have each := State.eachCell_shape_iff.mpr holds
      exact State.eachCell_shape_iff.mp (each.newObject kept.stable _ added) _ _ held
  | joinState _ _ held holds others =>
      have each := State.eachCell_shape_iff.mpr holds
      have eachOther := State.eachCell_shape_iff.mpr others
      exact State.eachCell_shape_iff.mp (each.join kept.stable eachOther) _ _ held

end HeapObject

end ScriptHeap
