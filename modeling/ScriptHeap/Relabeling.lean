import ScriptHeap.Label

/-!
# Relabelings

A relabeling sends labels to sets of labels: one label may become several when the objects it stands
for are told apart. Labels without an entry stay as they are.
-/

namespace ScriptHeap

/-- A substitution of sets of labels for labels. -/
structure Relabeling where
  images : FinMap Label LabelSet

namespace Relabeling

/-- The relabeling that changes nothing. -/
def empty : Relabeling := ⟨∅⟩

/-- Whether there is no entry. -/
def isEmpty (r : Relabeling) : Bool :=
  r.images.isEmpty

/-- Let `old` also become `new`. -/
def add (r : Relabeling) (old new : Label) : Relabeling :=
  ⟨r.images.insert old (((r.images.get? old).getD ∅).insert new)⟩

/-- The relabeling of a list of pairs, added in order. -/
def ofPairs (pairs : List (Label × Label)) : Relabeling :=
  pairs.foldl (fun r pair => r.add pair.1 pair.2) empty

/-- What a label becomes. -/
def image (r : Relabeling) (label : Label) : LabelSet :=
  (r.images.get? label).getD (FinSet.singleton label)

/-- What the labels of a set become. -/
def imageAll (r : Relabeling) (labels : LabelSet) : LabelSet :=
  labels.bind r.image

end Relabeling

end ScriptHeap
