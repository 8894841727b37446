import ScriptHeap.Proofs.Value.Built
import ScriptHeap.Transfer.Machine

/-!
# Values from elsewhere

The host keeps labels of its own, so the labels of the run are put in the place of those of every
value that it gives. They are put there one after the other, at every depth, while the table of
labels grows. Labels are known by their node, kind and class name, so no replacement changes the
value (`Value.replaceLabel_self`), and of the interner nothing changes but the labels that it
remembers (`Interner.internValue_frame`).
-/

namespace ScriptHeap

namespace FinSet

variable {α : Type} [Ord α] [DecidableEq α] [Std.TransOrd α] [Std.LawfulEqOrd α]

theorem insert_of_mem {s : FinSet α} {a : α} (member : a ∈ s) : s.insert a = s := by
  apply ext
  intro b
  rw [mem_insert]
  exact or_iff_right_of_imp fun same => same ▸ member

theorem insert_erase {s : FinSet α} {a : α} (member : a ∈ s) : (s.erase a).insert a = s := by
  apply ext
  intro b
  rw [mem_insert, mem_erase]
  by_cases same : b = a
  · simp [same, member]
  · simp [same]

end FinSet

namespace Value

mutual

/-- Putting a label in its own place changes nothing, at any depth. -/
theorem replaceLabel_self (label : Label) : (v : Value) → v.replaceLabel label label = v
  | ⟨flags, string, labels, parts⟩ => by
      rw [replaceLabel]
      split
      · rfl
      · have kept : (if labels.contains label then (labels.erase label).insert label else labels) =
            labels := by
          split
          · rename_i member
            exact FinSet.insert_erase member
          · rfl
        simp only [kept, replaceLabelInParts_self label parts]

theorem replaceLabelInParts_self (label : Label) :
    (parts : List (Token × Value)) → replaceLabelInParts label label parts = parts
  | [] => rfl
  | (token, part) :: rest => by
      rw [replaceLabelInParts, replaceLabel_self label part, replaceLabelInParts_self label rest]

end

end Value

namespace Interner

/-- Remember every label of a value. -/
def addValue (t : Interner) (v : Value) : Interner :=
  { t with labels := t.labels ∪ v.allLabels }

theorem internLabel_eq (t : Interner) (label : Label) :
    t.internLabel label = (label, t.addLabel label) := by
  unfold internLabel
  cases found : t.findLabel? label with
  | none => rfl
  | some known =>
      obtain rfl : known = label := by simpa using List.find?_some found
      have member : known ∈ t.labels := FinSet.mem_toList.mp (List.mem_of_find?_eq_some found)
      have unchanged : t.addLabel known = t := by
        unfold addLabel
        rw [FinSet.insert_of_mem member]
      rw [unchanged]

/-- One step: the value stays, and the label is remembered. -/
theorem internOccurrence_eq (v : Value) (t : Interner) (label : Label) :
    internOccurrence (v, t) label = (v, t.addLabel label) := by
  show ((v.replaceLabel label (t.internLabel label).1, (t.internLabel label).2) :
    Value × Interner) = _
  rw [internLabel_eq, Value.replaceLabel_self]

/-- All steps, from any value and any table that an earlier step leaves behind. -/
theorem foldl_internOccurrence (labels : List Label) (v : Value) (t : Interner) :
    labels.foldl internOccurrence (v, t) = (v, { t with labels := t.labels.insertAll labels }) := by
  induction labels generalizing t with
  | nil => rfl
  | cons label rest ih =>
      rw [List.foldl_cons, internOccurrence_eq, ih]
      rfl

theorem internValue_eq (t : Interner) (v : Value) : t.internValue v = (v, t.addValue v) :=
  foldl_internOccurrence v.allLabels.toList v t

theorem mem_labels_addValue {t : Interner} {v : Value} {label : Label} :
    label ∈ (t.addValue v).labels ↔ label ∈ t.labels ∨ label ∈ v.allLabels :=
  FinSet.mem_union

theorem addValue_of_mem {t : Interner} {v : Value}
    (known : ∀ label, label ∈ v.allLabels → label ∈ t.labels) : t.addValue v = t := by
  unfold addValue
  rw [FinSet.union_eq_left.mpr known]

/-- Interning a value gives it back as it is. Afterwards the labels of the value are remembered
    beside those that were, the tokens and the run are the same, and interning the value once more
    changes nothing. -/
theorem internValue_frame (t : Interner) (v : Value) :
    (t.internValue v).1 = v ∧
    (∀ label, label ∈ (t.internValue v).2.labels ↔ label ∈ t.labels ∨ label ∈ v.allLabels) ∧
    (t.internValue v).2.tokens = t.tokens ∧
    (t.internValue v).2.run = t.run ∧
    (t.internValue v).2.internValue v = (v, (t.internValue v).2) := by
  have again : (t.addValue v).addValue v = t.addValue v :=
    addValue_of_mem fun label member => mem_labels_addValue.mpr (.inr member)
  rw [internValue_eq, internValue_eq, again]
  exact ⟨rfl, fun label => mem_labels_addValue, rfl, rfl, rfl⟩

end Interner

namespace Transfer

variable {σ : Type}

theorem run_internValue (v : Value) (m : Machine σ) :
    (internValue v).run.run m = (.ok v, { m with interner := m.interner.addValue v }) := by
  show ((.ok (m.interner.internValue v).1, { m with interner := (m.interner.internValue v).2 }) :
    Except Error Value × Machine σ) = _
  rw [Interner.internValue_eq]

/-- For a rule, interning a value from the host comes to remembering its labels. -/
theorem internValue_eq (v : Value) :
    (internValue v : Transfer σ Value) = (do intern (·.addValue v); return v) :=
  funext (run_internValue v)

end Transfer

end ScriptHeap
