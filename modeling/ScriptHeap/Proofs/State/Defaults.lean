import ScriptHeap.Proofs.State.Origins
import ScriptHeap.Proofs.State.Restore

/-!
# Legal defaults

A default describes all properties that are not listed, so it may not say that they are present for
certain. Only the two setters check this. All other operations keep it: a join or a relabeling makes
nothing present that may not be absent as well, and restoration and localization take defaults from
other objects (`HeapObject.kept_legalDefaults`).

So whatever is made from the templates has legal defaults (`HeapObject.Obtained.legalDefaults`).
All legal defaults can be made, and writing a property of unknown name never fails
(`HeapObject.defaults_of_obtained`).
-/

namespace ScriptHeap

open Fallible

/-! ### Values -/

/-- Something is possible in a join where it is in one of the values. -/
theorem Value.maybePresent_join {v w : Value} (knownLeft : v.isUnknown = false)
    (knownRight : w.isUnknown = false) :
    (v.join w).maybePresent = (v.maybePresent || w.maybePresent) := by
  by_cases same : v = w
  · subst same
    rw [join_same knownLeft, Bool.or_self]
  · have labels : (v.labels ∪ w.labels).isEmpty = (v.labels.isEmpty && w.labels.isEmpty) := by
      rw [Bool.eq_iff_iff, Bool.and_eq_true]
      simp only [FinSet.isEmpty_eq_true_iff, FinSet.mem_union]
      grind
    have strings := joinStrings_isSome (v.flags.join w.flags).anyString v.string w.string
    rw [join_of_ne knownLeft knownRight same]
    simp only [maybePresent, maybePrimitive, maybeObject, labels, Flags.somePrimitive]
    generalize joinStrings (v.flags.join w.flags).anyString v.string w.string = joined at strings
    simp only [Flags.join] at strings ⊢
    grind

theorem Value.maybeAbsent_join {v w : Value} (knownLeft : v.isUnknown = false)
    (knownRight : w.isUnknown = false) :
    (v.join w).maybeAbsent = (v.maybeAbsent || w.maybeAbsent) := by
  by_cases same : v = w
  · subst same
    rw [join_same knownLeft, Bool.or_self]
  · rw [join_of_ne knownLeft knownRight same]
    rfl

namespace HeapObject

variable {v w : Value}

theorem legalDefault_iff : legalDefault v = true ↔
    v.isUnknown = true ∨ v.maybeAbsent = true ∨ v.maybePresent = false := by
  unfold legalDefault
  cases v.isUnknown <;> cases v.maybeAbsent <;> cases v.maybePresent <;> decide

/-- A value with the flags and the string of a legal default is one, if it has no labels where the
    other has none. -/
theorem legalDefault_of_flags (flags : w.flags = v.flags) (string : w.string = v.string)
    (labels : v.labels.isEmpty = true → w.labels.isEmpty = true) (legal : legalDefault v = true) :
    legalDefault w = true := by
  simp only [legalDefault, Value.isUnknown, Value.maybePresent, Value.maybePrimitive,
    Value.maybeObject, Value.maybeAbsent, flags, string] at legal ⊢
  grind

theorem legalDefault_of_join (left : legalDefault v = true) (right : legalDefault w = true) :
    legalDefault (v.join w) = true := by
  rw [legalDefault_iff] at left right ⊢
  cases unknownOne : v.isUnknown || w.isUnknown with
  | true => exact .inl ((Value.isUnknown_join v w).trans unknownOne)
  | false =>
      obtain ⟨knownLeft, knownRight⟩ := Bool.or_eq_false_iff.mp unknownOne
      rw [Value.maybePresent_join knownLeft knownRight, Value.maybeAbsent_join knownLeft knownRight]
      grind

theorem legalDefault_relabel (r : Relabeling) (legal : legalDefault v = true) :
    legalDefault (v.relabel r) = true := by
  obtain ⟨flags, string, labels, parts⟩ := v
  refine legalDefault_of_flags (by rfl) (by rfl) ?_ legal
  intro empty
  have none : labels.toList = [] :=
    List.eq_nil_iff_forall_not_mem.mpr fun l member =>
      FinSet.isEmpty_eq_true_iff.mp empty l (FinSet.mem_toList.mp member)
  show (r.imageAll labels).isEmpty = true
  unfold Relabeling.imageAll FinSet.bind
  rw [none]
  rfl

theorem legalDefault_replaceLabel (old new : Label) (legal : legalDefault v = true) :
    legalDefault (v.replaceLabel old new) = true := by
  obtain ⟨flags, string, labels, parts⟩ := v
  unfold Value.replaceLabel
  split
  · exact legal
  · refine legalDefault_of_flags (by rfl) (by rfl) ?_ legal
    intro empty
    -- Only a label that is there is replaced.
    have missing : labels.contains old = false :=
      Bool.eq_false_iff.mpr (FinSet.isEmpty_eq_true_iff.mp empty old)
    rw [missing]
    exact empty

theorem legalDefault_restored (nodes : FinSet Nat) (own : legalDefault v = true)
    (callers : legalDefault w = true) : legalDefault (Shape.restored nodes v w) = true := by
  unfold Shape.restored
  split
  · exact own
  · exact callers

theorem legalDefault_localValue (current : legalDefault v = true)
    (template : legalDefault w = true) : legalDefault (Resolver.localValue v w) = true := by
  unfold Resolver.localValue
  split
  · exact template
  · exact current

end HeapObject

/-! ### Shapes -/

namespace Shape

open HeapObject

/-- Both defaults are legal. -/
structure LegalDefaults (s : Shape) : Prop where
  numeric : legalDefault s.defaultNumeric = true
  other : legalDefault s.defaultOther = true

namespace LegalDefaults

variable {s s' : Shape}

theorem template (t : Template) : t.shape.LegalDefaults := by
  cases t <;> exact ⟨rfl, rfl⟩

/-- Writing a slot keeps the defaults legal, if what is written to a default is. -/
theorem setSlot (legal : s.LegalDefaults) {slot : Slot} {v : Value}
    (allowed : slot = .defaultNumeric ∨ slot = .defaultOther → legalDefault v = true) :
    (s.setSlot slot v).LegalDefaults := by
  cases slot with
  | property | internalValue | internalPrototype => exact ⟨legal.numeric, legal.other⟩
  | defaultNumeric => exact ⟨allowed (.inl rfl), legal.other⟩
  | defaultOther => exact ⟨legal.numeric, allowed (.inr rfl)⟩

theorem foldl_set {ι : Type} (key : ι → Key) (value : ι → Value) (items : List ι)
    (legal : s.LegalDefaults) :
    (items.foldl (fun acc item => acc.set (key item) (value item)) s).LegalDefaults := by
  induction items generalizing s with
  | nil => exact legal
  | cons item rest ih => exact ih ⟨legal.numeric, legal.other⟩

theorem clearModified (legal : s.LegalDefaults) : s.clearModified.LegalDefaults :=
  ⟨legal.numeric, legal.other⟩

theorem relabel (legal : s.LegalDefaults) (r : Relabeling) : (s.relabel r).LegalDefaults :=
  ⟨legalDefault_relabel r legal.numeric, legalDefault_relabel r legal.other⟩

theorem replaceLabel (legal : s.LegalDefaults) (old new : Label) :
    (s.replaceLabel old new).LegalDefaults :=
  ⟨legalDefault_replaceLabel old new legal.numeric, legalDefault_replaceLabel old new legal.other⟩

theorem join (first : s.LegalDefaults) (second : s'.LegalDefaults) : (s.join s').LegalDefaults :=
  ⟨legalDefault_of_join first.numeric second.numeric, legalDefault_of_join first.other second.other⟩

theorem restore (own : s.LegalDefaults) (callers : s'.LegalDefaults) (nodes : FinSet Nat) :
    (s.restore s' nodes).LegalDefaults := by
  rw [restore_eq]
  split
  · exact template .none
  · exact ⟨legalDefault_restored nodes own.numeric callers.numeric,
      legalDefault_restored nodes own.other callers.other⟩

end LegalDefaults

end Shape

/-! ### Objects -/

namespace HeapObject

variable {o o' : HeapObject}

theorem legalDefaults_of_apply (legal : o.shape.LegalDefaults) {change : ObjectChange}
    {answer : Answer} (done : change.apply o = .ok (answer, o')) : o'.shape.LegalDefaults := by
  rw [shape_of_apply done]
  cases change with
  | freeze => exact legal
  | setProperty | setProperties | setScope | extendScope => exact ⟨legal.numeric, legal.other⟩
  | setSlot slot v =>
      obtain ⟨_, changed, _⟩ := of_map_eq_ok done
      refine legal.setSlot ?_
      rintro (rfl | rfl)
      · exact (of_setDefault changed).1
      · exact (of_setDefault changed).1
  | clearModified => exact legal.clearModified
  | replaceLabel old new => exact legal.replaceLabel old new
  | materialize names => exact legal.foldl_set id o.shape.get _

/-- A step of a localization that keeps the defaults legal. -/
abbrev StaysLegal {α : Type} (x : Localizing Id α) (P : α → Prop) : Prop :=
  Fallible.Safe (fun o => o.shape.LegalDefaults) (fun _ => True) x P

namespace StaysLegal

theorem localizeSlot {template : Shape} (legal : template.LegalDefaults) (label : Label)
    (slot : Slot) :
    StaysLegal (HeapObject.localizeSlot .inFunction template label slot) fun _ => True := by
  refine .bind .get fun o kept => .bind (safe_request _) ?_
  rintro _ ⟨⟩
  refine safe_reshape fun o own => own.setSlot ?_
  rintro (rfl | rfl)
  · exact legalDefault_localValue kept.numeric legal.numeric
  · exact legalDefault_localValue kept.other legal.other

/-- A localization inside one function keeps the defaults legal: an unknown default is taken from
    the template, where it is legal as well. -/
theorem localize {template : HeapObject} (legal : template.shape.LegalDefaults) (label : Label) :
    StaysLegal (HeapObject.localize .inFunction template label) fun _ => True := by
  refine safe_localize _ label ?_ (localizeSlot legal label)
    (fun _ _ own => ⟨own.numeric, own.other⟩)
    (safe_localizeProperties _ template.shape label (fun _ _ _ _ _ _ => trivial)
      fun _ _ own _ => ⟨own.numeric, own.other⟩)
  intro o o' own done
  exact shape_of_changeProperties done ▸ own.foldl_set id o.shape.get _

end StaysLegal

/-- All operations keep legal defaults, where a localization stays inside one function. -/
theorem kept_legalDefaults : Shape.Kept (fun _ => True) (· = .inFunction) Shape.LegalDefaults where
  values := Value.writeClosed_any
  slots _ _ := trivial
  template := .template
  change _ _ legal done := legalDefaults_of_apply legal done
  join first second := first.join second
  relabel r legal := legal.relabel r
  restore nodes own callers := own.restore callers nodes
  localize label resolver templates legal := by
    subst resolver
    exact (StaysLegal.localize templates label _ legal).1

/-- The objects that can be made from the templates, with any values. A localization stays inside
    one function, since another resolver could answer with anything. -/
def Obtained (o : HeapObject) : Prop := o.Made (fun _ => True) (· = .inFunction)

/-- What is made from the templates has legal defaults. -/
theorem Obtained.legalDefaults {o : HeapObject} (obtained : o.Obtained) : o.shape.LegalDefaults :=
  obtained.shape kept_legalDefaults

/-- Any two legal defaults can be written to a new object. -/
theorem obtained_of_legalDefault {v w : Value} (numeric : legalDefault v = true)
    (other : legalDefault w = true) :
    (ofShape { Shape.none with defaultNumeric := v, defaultOther := w }).Obtained := by
  have first : (ofShape .none).setDefaultNumeric v =
      .ok (ofShape { Shape.none with defaultNumeric := v }) := by
    simp [setDefaultNumeric, setDefault, ofShape, numeric, changeSlots]
  have second : (ofShape { Shape.none with defaultNumeric := v }).setDefaultOther w =
      .ok (ofShape { Shape.none with defaultNumeric := v, defaultOther := w }) := by
    simp [setDefaultOther, setDefault, ofShape, other, changeSlots]
  have written : (ofShape { Shape.none with defaultNumeric := v }).Obtained :=
    .change (.setSlot .defaultNumeric v) (fun _ _ => trivial) (.new .none)
      (congrArg (Except.map (Answer.done, ·)) first)
  exact .change (.setSlot .defaultOther w) (fun _ _ => trivial) written
    (congrArg (Except.map (Answer.done, ·)) second)

/-- The defaults of objects made from the templates are the legal ones: each is unknown, may be
    absent or cannot be present. Writing a property of unknown name in a state never fails, and
    leaves a heap of such objects where there was one. -/
theorem defaults_of_obtained :
    (∀ v w : Value,
      (∃ o : HeapObject, o.Obtained ∧ o.shape.defaultNumeric = v ∧ o.shape.defaultOther = w) ↔
        ∀ default ∈ [v, w], default.isUnknown = true ∨ default.maybeAbsent = true ∨
          default.maybePresent = false) ∧
    ∀ (s : State) (labels : LabelSet) (v : Value),
      ∃ s', s.writeAnyProperty labels v = .ok s' ∧
        ((∀ label o, s.object? label = some o → o.Obtained) →
          ∀ label o, s'.object? label = some o → o.Obtained) := by
  constructor
  · intro v w
    simp only [List.forall_mem_cons, List.not_mem_nil, IsEmpty.forall_iff, implies_true, and_true,
      ← legalDefault_iff]
    constructor
    · rintro ⟨o, obtained, rfl, rfl⟩
      exact ⟨obtained.legalDefaults.numeric, obtained.legalDefaults.other⟩
    · rintro ⟨numeric, other⟩
      exact ⟨_, obtained_of_legalDefault numeric other, rfl, rfl⟩
  · intro s labels v
    obtain ⟨s', done, _⟩ := State.writeAnyProperty_changes s labels v
    refine ⟨s', done, fun before label o held => ?_⟩
    have applied : ((StateChange.writeAnyProperty labels v).apply .initial s).1 =
        .ok (.done, s') := congrArg (Except.map (Answer.done, ·)) done
    exact .write (.writeAnyProperty labels v) (fun _ _ => trivial) before applied held

/-- In a new state, `true` may be written to the properties of the global object without knowing
    which. No default that can be made is certainly `true`. -/
theorem anyGlobalProperty_written :
    (∀ o : HeapObject, o.Obtained → o.shape.defaultOther ≠ .bool true) ∧
    ∃ s', (State.initial .initial 0 .main false).1.writeAnyProperty (FinSet.singleton .global)
        (.bool true) = .ok s' ∧
      ∀ label o, s'.object? label = some o → o.Obtained := by
  constructor
  · intro o obtained certain
    have legal := (defaults_of_obtained.1 _ _).mp ⟨o, obtained, rfl, rfl⟩ o.shape.defaultOther
      (by simp)
    rw [certain] at legal
    revert legal
    decide
  · obtain ⟨s', done, kept⟩ := defaults_of_obtained.2 (State.initial .initial 0 .main false).1
      (FinSet.singleton .global) (.bool true)
    refine ⟨s', done, kept ?_⟩
    intro label o held
    obtain ⟨cell, found, rfl⟩ := Option.map_eq_some_iff.mp held
    have inserted : (FinMap.empty.insert Label.global _).get? label = some cell := found
    rw [FinMap.get?_insert] at inserted
    split at inserted
    · cases inserted
      exact .template _ .absentModified
    · cases inserted

end HeapObject

end ScriptHeap
