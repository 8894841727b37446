import ScriptHeap.Proofs.Value.Summary

/-!
# Labels of values

The labels of a value and of its parts can be collected (`allLabels`) or looked for
(`containsLabel`), which comes to the same (`containsLabel_iff`). A relabeling sends the labels of a
value to their images, at every depth (`allLabels_relabel`), and the replacement of one label by
another is a relabeling where no value is unknown (`replaceLabel_eq_relabel`).

A relabeling can make values equal that were not, so it changes which way a join goes. It is a
homomorphism of the join all the same (`relabel_join`), as long as no label is dropped: a value that
lost all of its labels would be bottom, and bottom leaves the parts of the other side alone.
-/

namespace ScriptHeap

/-! ### Relabelings -/

namespace Relabeling

/-- The relabelings that are put together from the empty one. -/
inductive Built : Relabeling → Prop where
  | empty : Built .empty
  | add {r : Relabeling} (old new : Label) : Built r → Built (r.add old new)

/-- The relabeling of one label. -/
def single (old new : Label) : Relabeling := empty.add old new

variable {r : Relabeling} {label label' : Label}

theorem mem_image_empty : label' ∈ empty.image label ↔ label' = label :=
  FinSet.mem_singleton

theorem image_add_of_ne (r : Relabeling) {old label : Label} (other : label ≠ old) (new : Label) :
    (r.add old new).image label = r.image label := by
  unfold image add
  rw [FinMap.get?_insert_of_ne _ other]

theorem mem_image_add_self (r : Relabeling) (old new : Label) :
    new ∈ (r.add old new).image old := by
  unfold image add
  rw [FinMap.get?_insert_self]
  exact FinSet.mem_insert.mpr (.inl rfl)

/-- Every label becomes some label. -/
theorem Built.exists_image (built : r.Built) (label : Label) :
    ∃ label', label' ∈ r.image label := by
  induction built with
  | empty => exact ⟨label, mem_image_empty.mpr rfl⟩
  | @add r old new _ ih =>
      by_cases same : label = old
      · subst same
        exact ⟨new, mem_image_add_self r label new⟩
      · rw [image_add_of_ne r same]
        exact ih

theorem Built.single (old new : Label) : (Relabeling.single old new).Built := .add old new .empty

theorem image_single (old new label : Label) :
    (single old new).image label = FinSet.singleton (if label = old then new else label) := by
  by_cases same : label = old
  · subst same
    unfold single image add
    rw [FinMap.get?_insert_self, if_pos rfl]
    rfl
  · rw [single, image_add_of_ne empty same, if_neg same]
    rfl

theorem mem_imageAll {labels : LabelSet} :
    label' ∈ r.imageAll labels ↔ ∃ label ∈ labels, label' ∈ r.image label :=
  FinSet.mem_bind

theorem imageAll_union (r : Relabeling) (a b : LabelSet) :
    r.imageAll (a ∪ b) = r.imageAll a ∪ r.imageAll b := by
  apply FinSet.ext
  intro label'
  simp only [mem_imageAll, FinSet.mem_union, or_and_right, exists_or]

theorem isEmpty_imageAll (built : r.Built) (labels : LabelSet) :
    (r.imageAll labels).isEmpty = labels.isEmpty := by
  rw [Bool.eq_iff_iff, FinSet.isEmpty_eq_true_iff, FinSet.isEmpty_eq_true_iff]
  constructor
  · intro empty label member
    obtain ⟨label', image⟩ := built.exists_image label
    exact empty label' (mem_imageAll.mpr ⟨label, member, image⟩)
  · intro empty label' member
    obtain ⟨label, present, _⟩ := mem_imageAll.mp member
    exact empty label present

end Relabeling

namespace Value

/-! ### Occurrences -/

mutual

/-- Looking for a label finds what collecting the labels gives. -/
theorem containsLabel_iff {label : Label} :
    (v : Value) → (v.containsLabel label = true ↔ label ∈ v.allLabels)
  | ⟨_, _, labels, parts⟩ => by
      unfold containsLabel allLabels
      rw [Bool.or_eq_true, FinSet.mem_union, partsContainLabel_iff parts]
      exact Iff.rfl

theorem partsContainLabel_iff {label : Label} :
    (parts : List (Token × Value)) →
      (partsContainLabel label parts = true ↔ label ∈ allLabelsOfParts parts)
  | [] => by simp [partsContainLabel, allLabelsOfParts]
  | (_, v) :: rest => by
      unfold partsContainLabel allLabelsOfParts
      rw [Bool.or_eq_true, FinSet.mem_union, containsLabel_iff v, partsContainLabel_iff rest]

end

theorem mem_allLabelsOfParts {label : Label} {parts : List (Token × Value)} :
    label ∈ allLabelsOfParts parts ↔ ∃ part ∈ parts, label ∈ part.2.allLabels := by
  induction parts with
  | nil => simp [allLabelsOfParts]
  | cons part rest ih => simp [allLabelsOfParts, FinSet.mem_union, ih]

theorem mem_allLabels_iff {label : Label} {v : Value} :
    label ∈ v.allLabels ↔ label ∈ v.labels ∨ ∃ part ∈ v.parts, label ∈ part.2.allLabels := by
  cases v
  rw [allLabels, FinSet.mem_union, mem_allLabelsOfParts]

/-- The own labels of a known value are all that it has, if it covers its parts. -/
theorem Layered.allLabels_eq {v : Value} (layered : v.Layered) (known : v.isUnknown = false) :
    v.allLabels = v.labels := by
  induction layered with
  | intro v summary _ ih =>
      apply FinSet.ext
      intro label
      rw [mem_allLabels_iff]
      refine or_iff_left_of_imp ?_
      rintro ⟨part, member, present⟩
      have allows := summary.parts known part member
      rw [ih part member allows.known] at present
      exact allows.labels label present

/-! ### Relabeling -/

mutual

/-- The labels of a relabeled value are the images of its labels. -/
theorem allLabels_relabel (r : Relabeling) :
    (v : Value) → (v.relabel r).allLabels = r.imageAll v.allLabels
  | ⟨_, _, labels, parts⟩ => by
      unfold relabel allLabels
      rw [Relabeling.imageAll_union, allLabelsOfParts_relabel r parts]

theorem allLabelsOfParts_relabel (r : Relabeling) :
    (parts : List (Token × Value)) →
      allLabelsOfParts (relabelParts r parts) = r.imageAll (allLabelsOfParts parts)
  | [] => rfl
  | (_, v) :: rest => by
      unfold relabelParts allLabelsOfParts
      rw [Relabeling.imageAll_union, allLabels_relabel r v, allLabelsOfParts_relabel r rest]

end

theorem relabel_eq (r : Relabeling) (v : Value) :
    v.relabel r =
      ⟨v.flags, v.string, r.imageAll v.labels, Assoc.mapValues (relabel r) v.parts⟩ := by
  cases v
  rw [relabel, relabelParts_eq]

/-- One label that takes the place of another, in a set. -/
theorem imageAll_single (old new : Label) (labels : LabelSet) :
    (Relabeling.single old new).imageAll labels =
      if labels.contains old then (labels.erase old).insert new else labels := by
  apply FinSet.ext
  intro label
  simp only [Relabeling.mem_imageAll, Relabeling.image_single, FinSet.mem_singleton, mem_replaced]
  constructor
  · rintro ⟨source, member, rfl⟩
    by_cases same : source = old
    · subst same
      exact .inr ⟨member, if_pos rfl⟩
    · rw [if_neg same]
      exact .inl ⟨member, same⟩
  · rintro (⟨member, other⟩ | ⟨present, rfl⟩)
    · exact ⟨label, member, (if_neg other).symm⟩
    · exact ⟨old, present, (if_pos rfl).symm⟩

/-- To put one label in the place of another is to relabel it, in a value that is known. -/
theorem replaceLabel_eq_relabel (old new : Label) {v : Value} (formed : v.WellFormed)
    (known : v.isUnknown = false) : v.replaceLabel old new = v.relabel (.single old new) := by
  induction formed with
  | intro v _ _ partsKnown _ ih =>
      have parts : Assoc.mapValues (replaceLabel old new) v.parts =
          Assoc.mapValues (relabel (.single old new)) v.parts := by
        refine List.map_congr_left fun part member => ?_
        rw [ih part member (partsKnown known part member)]
      rw [replaceLabel_of_known old new known, relabel_eq, imageAll_single, parts]

/-! ### Relabeling a join -/

section

variable {r : Relabeling} {a b : Value}

/-- Bottom stays bottom, and nothing else becomes bottom. -/
theorem isNone_relabel (built : r.Built) (v : Value) : (v.relabel r).isNone = v.isNone := by
  rw [relabel_eq]
  unfold isNone
  rw [Relabeling.isEmpty_imageAll built]

theorem mapValues_joinParts {f : Value → Value} {p q : List (Token × Value)}
    (sorted : Assoc.Sorted q)
    (each : ∀ token v w, Assoc.find? token p = some v → Assoc.find? token q = some w →
      f (v.join w) = (f v).join (f w)) :
    Assoc.mapValues f (joinParts p q) = joinParts (Assoc.mapValues f p) (Assoc.mapValues f q) := by
  apply Assoc.eq_of_find?_eq (Assoc.mapValues_sorted (joinParts_sorted sorted))
    (joinParts_sorted (Assoc.mapValues_sorted sorted))
  intro token
  simp only [Assoc.find?_mapValues, find?_joinParts]
  cases left : Assoc.find? token p with
  | none => cases Assoc.find? token q <;> rfl
  | some v =>
      cases right : Assoc.find? token q with
      | none => rfl
      | some w => simp [each token v w left right]

/-- Parts are dropped, kept or joined by a join whether it is relabeled before or after. -/
theorem joinedParts_relabel (built : r.Built) (sorted : Assoc.Sorted b.parts)
    (each : ∀ token v w, Assoc.find? token a.parts = some v → Assoc.find? token b.parts = some w →
      (v.join w).relabel r = (v.relabel r).join (w.relabel r)) :
    joinedParts (a.relabel r) (b.relabel r) = Assoc.mapValues (relabel r) (joinedParts a b) := by
  have parts : ∀ v : Value, (v.relabel r).parts = Assoc.mapValues (relabel r) v.parts :=
    fun v => by rw [relabel_eq]
  have split : ∀ v : Value, (Assoc.mapValues (relabel r) v.parts).isEmpty = v.parts.isEmpty :=
    fun v => List.isEmpty_map
  unfold joinedParts
  simp only [isNone_relabel built, parts, split]
  split
  · split <;> rfl
  · split
    · split <;> rfl
    · exact (mapValues_joinParts sorted each).symm

/-- A join that is relabeled is the join of the relabeled values. -/
theorem relabel_join (built : r.Built) (formedLeft : a.WellFormed) (formedRight : b.WellFormed) :
    (a.join b).relabel r = (a.relabel r).join (b.relabel r) := by
  induction formedLeft generalizing b with
  | intro a sorted oneString known parts ih =>
      have formedLeft : a.WellFormed := .intro a sorted oneString known parts
      cases unknownOne : a.isUnknown || b.isUnknown with
      | true =>
          rw [join_unknown unknownOne,
            join_unknown (by rw [isUnknown_relabel, isUnknown_relabel, unknownOne])]
          rfl
      | false =>
          obtain ⟨knownLeft, knownRight⟩ := Bool.or_eq_false_iff.mp unknownOne
          have joinedParts := joinedParts_relabel built formedRight.sorted
            fun token v w foundLeft foundRight =>
              ih _ (Assoc.mem_of_find?_eq_some foundLeft) (formedRight.part foundRight)
          -- Values that become equal are joined by the shortcut, which makes no difference.
          rw [join_eq (formedLeft.relabel r) ((isUnknown_relabel r a).trans knownLeft)
              ((isUnknown_relabel r b).trans knownRight), joinedParts,
            join_eq formedLeft knownLeft knownRight]
          simp only [relabel_eq, Relabeling.imageAll_union]

end

/-- On the values that can be built, every relabeling is a homomorphism of the join. -/
theorem relabel_join_of_built {a b : Value} {r : Relabeling} (first : a.Built) (second : b.Built)
    (built : r.Built) : (a.join b).relabel r = (a.relabel r).join (b.relabel r) :=
  relabel_join built first.wellFormed second.wellFormed

/-- An object that is split by its type, and that again by the property it was read from. -/
def nestedObject (node : Nat) : Value :=
  let byType := partitioned
    (FinMap.empty.insert (.type ⟨0, 0⟩ 1 .objObject) (object ⟨node, .object, .none⟩))
  partitioned (FinMap.empty.insert (.property ⟨0, 1⟩ 2 (.name "p")) byType)

theorem nestedObject_built (node : Nat) : (nestedObject node).Built := by
  refine .partitioned _ ?_
  intro part member
  rw [List.mem_singleton.mp member]
  refine .partitioned _ ?_
  intro inner innerMember
  rw [List.mem_singleton.mp innerMember]
  exact .objects _

/-- Two objects become one. -/
def mergedObjects : Relabeling :=
  (Relabeling.single ⟨1, .object, .none⟩ ⟨3, .object, .none⟩).add ⟨2, .object, .none⟩
    ⟨3, .object, .none⟩

/-- Two different values that are relabeled to the same one: what is joined part by part before is
    joined with itself after. -/
theorem nestedObject_relabel_join :
    ((nestedObject 1).Built ∧ (nestedObject 2).Built ∧ mergedObjects.Built) ∧
      nestedObject 1 ≠ nestedObject 2 ∧
      (nestedObject 1).relabel mergedObjects = (nestedObject 2).relabel mergedObjects ∧
      ((nestedObject 1).join (nestedObject 2)).relabel mergedObjects =
        ((nestedObject 1).relabel mergedObjects).join ((nestedObject 2).relabel mergedObjects) ∧
      ((nestedObject 1).join (nestedObject 2)).relabel mergedObjects = nestedObject 3 := by
  have built : mergedObjects.Built := .add _ _ (.single _ _)
  exact ⟨⟨nestedObject_built 1, nestedObject_built 2, built⟩, by decide, by decide,
    relabel_join_of_built (nestedObject_built 1) (nestedObject_built 2) built, by decide⟩

end Value

end ScriptHeap
