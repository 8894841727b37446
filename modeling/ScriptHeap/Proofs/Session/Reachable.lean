import ScriptHeap.Proofs.Shape.Relabel
import ScriptHeap.Proofs.State.Origins
import ScriptHeap.Proofs.State.Restore

/-!
# Objects that can be reached

An object is reached from the templates by the operations on objects, with values that can be built,
and by the operations on states (`HeapObject.Reachable`). Its slots then hold values that can be
built (`HeapObject.Reachable.built`), so what holds of all such values, like the laws of the join,
holds of the slots of all objects that an analysis can meet.
-/

namespace ScriptHeap

open Fallible

/-! ### Shapes -/

namespace Shape

/-- Every slot holds a value that can be built. -/
abbrev Built (s : Shape) : Prop := s.Each Value.Built

/-- A shape whose values are built is well formed. -/
theorem Built.wellFormed {s : Shape} (built : s.Built) : s.WellFormed :=
  fun slot => (built slot).wellFormed

/-- Values that can be built may stand in slots. -/
theorem slotClosed_built : Value.SlotClosed Value.Built := ⟨.absentModified, .join⟩

namespace Built

variable {s caller : Shape}

theorem of_slots (properties : ∀ v ∈ s.properties.values, v.Built)
    (numeric : s.defaultNumeric.Built) (other : s.defaultOther.Built)
    (prototype : s.internalPrototype.Built) (value : s.internalValue.Built) : s.Built := by
  refine getSlot_of_contents properties ?_
  simp only [fixedSlots, List.forall_mem_cons, List.not_mem_nil, IsEmpty.forall_iff, implies_true,
    and_true]
  exact ⟨numeric, other, prototype, value⟩

theorem template (t : Template) : t.shape.Built := by
  cases t with
  | none => exact of_slots nofun .none .none .none .none
  | noneModified =>
      exact of_slots nofun .noneModified .noneModified .noneModified .noneModified
  | absentModified =>
      exact of_slots nofun .absentModified .absentModified .absentModified .absentModified
  | unknown => exact of_slots nofun .unknown .unknown .unknown .unknown

/-- A join of shapes is built of joins. -/
theorem join (first : s.Built) (second : caller.Built) : (s.join caller).Built :=
  slotClosed_built.joined first second

theorem relabel (built : s.Built) (r : Relabeling) : (s.relabel r).Built :=
  getSlot_relabel_of_join .join fun slot => (built slot).relabel r

theorem withProperties (built : s.Built) {properties : FinMap Key Value}
    (each : ∀ v ∈ properties.values, v.Built) : ({ s with properties } : Shape).Built :=
  of_slots each (built .defaultNumeric) (built .defaultOther) (built .internalPrototype)
    (built .internalValue)

theorem withScope (built : s.Built) (scope : Scope) : ({ s with scope } : Shape).Built :=
  of_slots (fun _ => built.value) (built .defaultNumeric) (built .defaultOther)
    (built .internalPrototype) (built .internalValue)

theorem setSlot (built : s.Built) (slot : Slot) {v : Value} (builtValue : v.Built) :
    (s.setSlot slot v).Built := by
  have numeric := built .defaultNumeric
  have other := built .defaultOther
  have prototype := built .internalPrototype
  have value := built .internalValue
  cases slot with
  | property key => exact built.set key builtValue
  | defaultNumeric => exact of_slots (fun _ => built.value) builtValue other prototype value
  | defaultOther => exact of_slots (fun _ => built.value) numeric builtValue prototype value
  | internalValue => exact of_slots (fun _ => built.value) numeric other prototype builtValue
  | internalPrototype => exact of_slots (fun _ => built.value) numeric other builtValue value

theorem clearModified (built : s.Built) : s.clearModified.Built := by
  refine of_slots ?_ (built .defaultNumeric).notModified (built .defaultOther).notModified
    (built .internalPrototype).notModified (built .internalValue).notModified
  intro v member
  obtain ⟨key, found⟩ := FinMap.mem_values_iff.mp member
  have mapped : (s.properties.mapValues Value.notModified).get? key = some v := found
  rw [FinMap.get?_mapValues] at mapped
  obtain ⟨old, foundOld, rfl⟩ := Option.map_eq_some_iff.mp mapped
  exact (built.value (FinMap.mem_values_iff.mpr ⟨key, foundOld⟩)).notModified

theorem replaceLabel (built : s.Built) (old new : Label) : (s.replaceLabel old new).Built := by
  refine of_slots ?_ ((built .defaultNumeric).replaceLabel old new)
    ((built .defaultOther).replaceLabel old new) ((built .internalPrototype).replaceLabel old new)
    ((built .internalValue).replaceLabel old new)
  intro v member
  obtain ⟨key, found⟩ := FinMap.mem_values_iff.mp member
  obtain ⟨entry, entryMember, same⟩ := List.mem_map.mp (FinMap.mem_of_get?_ofList found)
  obtain ⟨rfl, rfl⟩ := Prod.mk.inj same
  exact (built.value (List.mem_map.mpr ⟨entry, entryMember, rfl⟩)).replaceLabel old new

theorem materialize (built : s.Built) (keys : List Key) : (s.materialize keys).Built :=
  Shape.Each.foldl_set built keys fun key _ => built (.property key)

/-- Restoring a shape from the one of the caller takes built values from both. -/
theorem restore (own : s.Built) (callers : caller.Built) (nodes : FinSet Nat) :
    (s.restore caller nodes).Built := by
  by_cases collapsed : s.restore caller nodes = .none
  · rw [collapsed]
    exact template .none
  · intro slot
    rw [getSlot_restore collapsed]
    unfold restored
    split
    · exact own slot
    · exact (callers slot).removeParts nodes

end Built

end Shape

/-! ### Objects -/

/-- A resolver that answers with values that can be built, when it is asked about such values. -/
def Resolver.Builds (resolver : Resolver Id) : Prop :=
  ∀ current template place v, current.Built → template.Built →
    resolver.value current template place = .ok v → v.Built

namespace HeapObject

variable {o o' : HeapObject}

/-- Each change of an object writes built values, if it is given such values. -/
theorem built_of_apply (built : o.shape.Built) {change : ObjectChange}
    (values : ∀ v ∈ change.values, v.Built) {answer : Answer}
    (done : change.apply o = .ok (answer, o')) : o'.shape.Built := by
  rw [shape_of_apply done]
  cases change with
  | freeze => exact built
  | setProperty key v => exact built.set key (values v List.mem_cons_self)
  | setProperties => exact built.withProperties values
  | setSlot slot v => exact built.setSlot slot (values v List.mem_cons_self)
  | setScope | extendScope => exact built.withScope _
  | clearModified => exact built.clearModified
  | replaceLabel old new => exact built.replaceLabel old new
  | materialize names => exact built.materialize _

/-- A step of a localization that leaves values in the slots that can be built. -/
abbrev StaysBuilt {α : Type} (x : Localizing Id α) (P : α → Prop) : Prop :=
  Fallible.Safe (fun o => o.shape.Built) (fun _ => True) x P

namespace StaysBuilt

variable {resolver : Resolver Id} {template : Shape}

theorem localizeSlot (builds : resolver.Builds) (built : template.Built) (label : Label)
    (slot : Slot) :
    StaysBuilt (HeapObject.localizeSlot resolver template label slot) fun _ => True :=
  .bind .get fun _ own => .bind (safe_request _) fun _ answer =>
    safe_reshape fun _ kept => kept.setSlot slot (builds _ _ _ _ (own slot) (built slot) answer)

theorem localizeProperties (builds : resolver.Builds) (built : template.Built) (label : Label) :
    StaysBuilt (HeapObject.localizeProperties resolver template label) fun _ => True := by
  refine safe_localizeProperties resolver template label ?_ fun o _ own each =>
    own.withProperties each
  intro o own entry member v answer
  have held := own.value (List.mem_map.mpr ⟨entry, member, rfl⟩)
  exact builds _ _ _ _ held (built (.property entry.1)) answer

/-- Localization writes what the resolver builds. -/
theorem localize (builds : resolver.Builds) {template : HeapObject} (built : template.shape.Built)
    (label : Label) :
    StaysBuilt (HeapObject.localize resolver template label) fun _ => True := by
  refine safe_localize resolver label ?_ (localizeSlot builds built label)
    (fun _ _ own => own.withScope _) (localizeProperties builds built label)
  intro o o' own done
  exact shape_of_changeProperties done ▸ own.materialize _

end StaysBuilt

end HeapObject

/-! ### Reachable objects -/

namespace HeapObject

/-- All operations leave values in the slots that can be built, if they are given such values. -/
theorem kept_built : Shape.Kept Value.Built Resolver.Builds Shape.Built where
  values := ⟨.undefined, .join, .joinAbsent, .joinModified⟩
  slots built := built
  template := .template
  change _ values built done := built_of_apply built values done
  join first second := first.join second
  relabel r built := built.relabel r
  restore nodes own callers := own.restore callers nodes
  localize label builds templates built := (StaysBuilt.localize builds templates label _ built).1

/-- The objects that are reached from the templates with values that can be built. -/
def Reachable (o : HeapObject) : Prop := o.Made Value.Built Resolver.Builds

/-- The slots of a reachable object hold values that can be built. -/
theorem Reachable.built {o : HeapObject} (reachable : o.Reachable) : o.shape.Built :=
  reachable.shape kept_built

end HeapObject

end ScriptHeap
