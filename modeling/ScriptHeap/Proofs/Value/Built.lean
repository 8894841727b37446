import ScriptHeap.Proofs.Value.Join

/-!
# Values that can be built

A value is built by the constructors of abstract values and by the operations on them, and in no
other way. Every value that is built is well formed (`Built.wellFormed`), so the laws of the join
hold of all values that an analysis can meet.
-/

namespace ScriptHeap.Value

namespace WellFormed

variable {v w : Value}

/-- A value without strings and parts. -/
theorem ofFlags (flags : Flags) : (Value.ofFlags flags).WellFormed :=
  of_whole rfl fun _ => rfl

theorem objects (labels : LabelSet) : (Value.objects labels).WellFormed :=
  of_whole rfl nofun

theorem ofString (s : String) : (Value.ofString s).WellFormed :=
  of_whole rfl nofun

theorem collapse (formed : v.WellFormed) : v.collapse.WellFormed :=
  of_whole rfl formed.oneString

theorem notForeign (formed : v.WellFormed) : v.notForeign.WellFormed :=
  of_whole rfl formed.oneString

theorem joinAbsent (formed : v.WellFormed) : v.joinAbsent.WellFormed :=
  formed.of_same rfl rfl rfl rfl

theorem joinModified (formed : v.WellFormed) : v.joinModified.WellFormed :=
  formed.of_same rfl rfl rfl rfl

theorem notModified (formed : v.WellFormed) : v.notModified.WellFormed :=
  formed.of_same rfl rfl rfl rfl

theorem notAbsent (formed : v.WellFormed) : v.notAbsent.WellFormed :=
  formed.of_same rfl rfl rfl rfl

theorem withoutAttributes (formed : v.WellFormed) : v.withoutAttributes.WellFormed :=
  formed.of_same rfl rfl rfl rfl

theorem removeParts (formed : v.WellFormed) (nodes : FinSet Nat) :
    (v.removeParts nodes).WellFormed := by
  obtain ⟨_, sorted, oneString, known, parts⟩ := formed
  refine .intro _ (Assoc.filter_sorted sorted) oneString ?_ ?_
  · intro isKnown part member
    exact known isKnown part (List.mem_filter.mp member).1
  · intro part member
    exact parts part (List.mem_filter.mp member).1

/-- A change of each part for itself, which leaves the tokens, the strings and the flags alone. -/
theorem of_mapped (f : Value → Value) (formed : v.WellFormed)
    (parts : w.parts = Assoc.mapValues f v.parts) (string : w.string = v.string)
    (flags : w.flags = v.flags) (known : ∀ part, (f part).isUnknown = part.isUnknown)
    (partsFormed : ∀ part ∈ v.parts, (f part.2).WellFormed) : w.WellFormed := by
  obtain ⟨_, sorted, oneString, partsKnown, _⟩ := formed
  refine .intro _ (parts ▸ Assoc.mapValues_sorted sorted) (flags ▸ string ▸ oneString) ?_ ?_
  · intro isKnown part member
    rw [parts] at member
    obtain ⟨old, oldMember, rfl⟩ := List.mem_map.mp member
    rw [known]
    exact partsKnown (by simpa [isUnknown, flags] using isKnown) old oldMember
  · intro part member
    rw [parts] at member
    obtain ⟨old, oldMember, rfl⟩ := List.mem_map.mp member
    exact partsFormed old oldMember

end WellFormed

/-! ### Relabeling -/

theorem relabelParts_eq (r : Relabeling) (parts : List (Token × Value)) :
    relabelParts r parts = Assoc.mapValues (relabel r) parts := by
  induction parts with
  | nil => rfl
  | cons entry rest ih =>
      unfold relabelParts
      rw [ih]
      rfl

theorem replaceLabelInParts_eq (old new : Label) (parts : List (Token × Value)) :
    replaceLabelInParts old new parts = Assoc.mapValues (replaceLabel old new) parts := by
  induction parts with
  | nil => rfl
  | cons entry rest ih =>
      unfold replaceLabelInParts
      rw [ih]
      rfl

theorem replaceLabel_of_unknown (old new : Label) {v : Value} (unknown : v.isUnknown = true) :
    v.replaceLabel old new = v := by
  obtain ⟨flags, string, labels, parts⟩ := v
  have unchanged : flags.unknown = true := unknown
  simp [replaceLabel, unchanged]

/-- Replacing a label that a value does not have changes nothing. -/
theorem replaceLabel_of_missing {old : Label} (new : Label) {v : Value}
    (missing : v.containsLabel old = false) : v.replaceLabel old new = v := by
  obtain ⟨flags, string, labels, parts⟩ := v
  simp [replaceLabel, missing]

theorem replaceLabelInParts_of_missing {old : Label} (new : Label) {parts : List (Token × Value)}
    (missing : partsContainLabel old parts = false) :
    replaceLabelInParts old new parts = parts := by
  induction parts with
  | nil => rfl
  | cons entry rest ih =>
      obtain ⟨token, part⟩ := entry
      obtain ⟨first, others⟩ := Bool.or_eq_false_iff.mp missing
      unfold replaceLabelInParts
      rw [replaceLabel_of_missing new first, ih others]

/-- The label is replaced on every level. A value without it is left alone, and it makes no
    difference to go through it. -/
theorem replaceLabel_of_known (old new : Label) {v : Value} (known : v.isUnknown = false) :
    v.replaceLabel old new =
      ⟨v.flags, v.string,
        if v.labels.contains old then (v.labels.erase old).insert new else v.labels,
        Assoc.mapValues (replaceLabel old new) v.parts⟩ := by
  rw [← replaceLabelInParts_eq]
  cases contained : v.containsLabel old with
  | false =>
      rw [replaceLabel_of_missing new contained]
      obtain ⟨flags, string, labels, parts⟩ := v
      obtain ⟨own, others⟩ := Bool.or_eq_false_iff.mp contained
      simp [own, replaceLabelInParts_of_missing new others]
  | true =>
      obtain ⟨flags, string, labels, parts⟩ := v
      have summarised : flags.unknown = false := known
      rw [replaceLabel]
      simp [summarised, contained]

/-- A value stays unknown under other labels, or known. -/
theorem isUnknown_relabel (r : Relabeling) (v : Value) :
    (v.relabel r).isUnknown = v.isUnknown := by
  cases v
  rfl

theorem isUnknown_replaceLabel (old new : Label) (v : Value) :
    (v.replaceLabel old new).isUnknown = v.isUnknown := by
  cases v
  unfold replaceLabel
  split <;> rfl

/-- A value stays well formed under other labels. -/
theorem WellFormed.relabel {v : Value} (r : Relabeling) (formed : v.WellFormed) :
    (v.relabel r).WellFormed := by
  induction formed with
  | intro v sorted oneString known parts ih =>
      refine of_mapped (Value.relabel r) (.intro v sorted oneString known parts) ?_ ?_ ?_
        (isUnknown_relabel r) ih
      · cases v
        exact relabelParts_eq r _
      · cases v
        rfl
      · cases v
        rfl

/-- A value stays well formed when a label takes the place of another. -/
theorem WellFormed.replaceLabel {v : Value} (old new : Label) (formed : v.WellFormed) :
    (v.replaceLabel old new).WellFormed := by
  induction formed with
  | intro v sorted oneString known parts ih =>
      have formed : v.WellFormed := .intro v sorted oneString known parts
      cases unknown : v.isUnknown with
      | true =>
          rw [replaceLabel_of_unknown old new unknown]
          exact formed
      | false =>
          rw [replaceLabel_of_known old new unknown]
          exact of_mapped (Value.replaceLabel old new) formed rfl rfl rfl
            (isUnknown_replaceLabel old new) ih

/-! ### Splitting -/

/-- A join of well-formed values is well formed. -/
theorem WellFormed.foldl_join {α : Type} {f : α → Value} (items : List α) {start : Value}
    (formed : start.WellFormed) (each : ∀ item ∈ items, (f item).WellFormed) :
    (items.foldl (fun v item => v.join (f item)) start).WellFormed := by
  induction items generalizing start with
  | nil => exact formed
  | cons item rest ih =>
      have first := formed.join (each item List.mem_cons_self)
      exact ih first fun other member => each other (List.mem_cons_of_mem _ member)

/-- A join of values is unknown if and only if one of them is. -/
theorem isUnknown_foldl_join {α : Type} (f : α → Value) (items : List α) (start : Value) :
    (items.foldl (fun v item => v.join (f item)) start).isUnknown =
      (start.isUnknown || items.any fun item => (f item).isUnknown) := by
  induction items generalizing start with
  | nil => simp
  | cons item rest ih =>
      rw [List.foldl_cons, ih, isUnknown_join, List.any_cons, Bool.or_assoc]

/-- A value with parts is well formed if its parts are. -/
theorem WellFormed.partitioned {parts : FinMap Token Value}
    (formed : ∀ part ∈ parts.toList, part.2.WellFormed) : (partitioned parts).WellFormed := by
  have values : ∀ part ∈ parts.values, part.WellFormed := by
    intro part member
    obtain ⟨entry, entryMember, rfl⟩ := List.mem_map.mp member
    exact formed entry entryMember
  have summary := foldl_join parts.values (ofFlags {}) fun part member =>
    (values part member).collapse
  refine .intro _ parts.sorted summary.oneString ?_ formed
  intro known part member
  have unknowns := isUnknown_foldl_join Value.collapse parts.values Value.none
  have summaryKnown : (parts.values.foldl (fun summary part => summary.join part.collapse)
      Value.none).isUnknown = false := known
  rw [summaryKnown] at unknowns
  have noneUnknown := List.any_eq_false.mp (Bool.or_eq_false_iff.mp unknowns.symm).2
  have partMember : part.2 ∈ parts.values := List.mem_map.mpr ⟨part, member, rfl⟩
  exact Bool.eq_false_iff.mpr (noneUnknown part.2 partMember)

/-- The values that the constructors and operations build. -/
inductive Built : Value → Prop where
  | none : Built Value.none
  | noneModified : Built Value.noneModified
  | unknown : Built Value.unknown
  | absent : Built Value.absent
  | absentModified : Built Value.absentModified
  | undefined : Built Value.undefined
  | null : Built Value.null
  | bool (b : Bool) : Built (Value.bool b)
  | anyBool : Built Value.anyBool
  | anyNumber : Built Value.anyNumber
  | anyString : Built Value.anyString
  | anyPrimitive : Built Value.anyPrimitive
  | ofString (s : String) : Built (Value.ofString s)
  | objects (labels : LabelSet) : Built (Value.objects labels)
  | partitioned (parts : FinMap Token Value) (built : ∀ part ∈ parts.toList, Built part.2) :
      Built (Value.partitioned parts)
  | join {v w : Value} : Built v → Built w → Built (v.join w)
  | joinAbsent {v : Value} : Built v → Built v.joinAbsent
  | joinModified {v : Value} : Built v → Built v.joinModified
  | notModified {v : Value} : Built v → Built v.notModified
  | notAbsent {v : Value} : Built v → Built v.notAbsent
  | objectsOnly {v : Value} : Built v → Built v.objectsOnly
  | notForeign {v : Value} : Built v → Built v.notForeign
  | withoutAttributes {v : Value} : Built v → Built v.withoutAttributes
  | setDontDelete {v : Value} : Built v → Built v.setDontDelete
  | setDontEnum {v : Value} : Built v → Built v.setDontEnum
  | setReadOnly {v : Value} : Built v → Built v.setReadOnly
  | part {v part : Value} {token : Token} : Built v → v.part? token = some part → Built part
  | collapse {v : Value} : Built v → Built v.collapse
  | removeParts {v : Value} (nodes : FinSet Nat) : Built v → Built (v.removeParts nodes)
  | relabel {v : Value} (r : Relabeling) : Built v → Built (v.relabel r)
  | replaceLabel {v : Value} (old new : Label) : Built v → Built (v.replaceLabel old new)

/-- Every value that is built is well formed. -/
theorem Built.wellFormed {v : Value} (built : v.Built) : v.WellFormed := by
  induction built with
  | none | noneModified | unknown | absent | absentModified | undefined | null | bool | anyBool
  | anyNumber | anyString | anyPrimitive => exact .ofFlags _
  | ofString s => exact .ofString s
  | objects labels => exact .objects labels
  | partitioned parts _ formed => exact .partitioned formed
  | join _ _ formedLeft formedRight => exact formedLeft.join formedRight
  | joinAbsent _ formed => exact formed.joinAbsent
  | joinModified _ formed => exact formed.joinModified
  | notModified _ formed => exact formed.notModified
  | notAbsent _ formed => exact formed.notAbsent
  | objectsOnly => exact .objects _
  | notForeign _ formed => exact formed.notForeign
  | withoutAttributes _ formed => exact formed.withoutAttributes
  | setDontDelete _ formed | setDontEnum _ formed | setReadOnly _ formed =>
      exact formed.of_same rfl rfl rfl rfl
  | part _ found formed => exact formed.part found
  | collapse _ formed => exact formed.collapse
  | removeParts nodes _ formed => exact formed.removeParts nodes
  | relabel r _ formed => exact formed.relabel r
  | replaceLabel old new _ formed => exact formed.replaceLabel old new

end ScriptHeap.Value
