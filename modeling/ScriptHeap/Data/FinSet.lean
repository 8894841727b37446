import ScriptHeap.Data.FinMap

/-!
# Finite sets as sorted lists

A finite set is a finite map to `Unit`, so it lists its members in strictly increasing order and two
sets with the same members are equal.

Main statements: `mem_insert`, `mem_union` and `FinSet.ext`.
-/

namespace ScriptHeap

universe u v

/-- A finite set, whose members are listed in strictly increasing order. -/
structure FinSet (α : Type u) [Ord α] where
  entries : FinMap α Unit

namespace FinSet

variable {α : Type u} [Ord α]

instance [DecidableEq α] : DecidableEq (FinSet α) := fun a b =>
  decidable_of_iff (a.entries = b.entries) (by cases a; cases b; simp)

/-- The set without members. -/
def empty : FinSet α := ⟨∅⟩

instance : EmptyCollection (FinSet α) := ⟨empty⟩

instance : Inhabited (FinSet α) := ⟨empty⟩

/-- The members, in order. -/
def toList (s : FinSet α) : List α :=
  s.entries.keys

/-- Whether an element is a member. -/
def contains (s : FinSet α) (a : α) : Bool :=
  s.entries.contains a

instance : Membership α (FinSet α) := ⟨fun s a => s.contains a = true⟩

instance (a : α) (s : FinSet α) : Decidable (a ∈ s) :=
  inferInstanceAs (Decidable (s.contains a = true))

/-- Whether there is no member. -/
def isEmpty (s : FinSet α) : Bool :=
  s.entries.isEmpty

/-- The number of members. -/
def size (s : FinSet α) : Nat :=
  s.entries.size

/-- Add an element. -/
def insert [Std.TransOrd α] (s : FinSet α) (a : α) : FinSet α :=
  ⟨s.entries.insert a ()⟩

/-- Remove an element. -/
def erase (s : FinSet α) (a : α) : FinSet α :=
  ⟨s.entries.erase a⟩

/-- Keep the members that satisfy a test. -/
def filter (s : FinSet α) (keep : α → Bool) : FinSet α :=
  ⟨s.entries.filter fun a _ => keep a⟩

/-- The set with one member. -/
def singleton [Std.TransOrd α] (a : α) : FinSet α :=
  (empty : FinSet α).insert a

/-- Add every element of a list. -/
def insertAll [Std.TransOrd α] (s : FinSet α) (elements : List α) : FinSet α :=
  elements.foldl insert s

/-- The set of the elements of a list. -/
def ofList [Std.TransOrd α] (elements : List α) : FinSet α :=
  (empty : FinSet α).insertAll elements

/-- The members of either set. -/
def union [Std.TransOrd α] (s t : FinSet α) : FinSet α :=
  s.insertAll t.toList

instance [Std.TransOrd α] : Union (FinSet α) := ⟨union⟩

/-- The members of the first set that the second does not have. -/
def diff (s t : FinSet α) : FinSet α :=
  s.filter fun a => !t.contains a

/-- The image of a set under a function. -/
def map {β : Type v} [Ord β] [Std.TransOrd β] (s : FinSet α) (f : α → β) : FinSet β :=
  ofList (s.toList.map f)

/-- The union of the images of the members. -/
def bind {β : Type v} [Ord β] [Std.TransOrd β] (s : FinSet α) (f : α → FinSet β) : FinSet β :=
  s.toList.foldl (fun acc a => acc ∪ f a) ∅

@[simp] theorem not_mem_empty (a : α) : ¬ a ∈ (∅ : FinSet α) :=
  Bool.false_ne_true

/-- The members after an insertion. -/
@[simp] theorem mem_insert [DecidableEq α] [Std.TransOrd α] [Std.LawfulEqOrd α] {s : FinSet α}
    {a b : α} : b ∈ s.insert a ↔ b = a ∨ b ∈ s := by
  show (s.entries.insert a ()).contains b = true ↔ b = a ∨ s.entries.contains b = true
  unfold FinMap.contains
  rw [FinMap.get?_insert]
  by_cases h : b = a <;> simp [h]

@[simp] theorem mem_insertAll [DecidableEq α] [Std.TransOrd α] [Std.LawfulEqOrd α]
    {s : FinSet α} {elements : List α} {b : α} :
    b ∈ s.insertAll elements ↔ b ∈ elements ∨ b ∈ s := by
  unfold insertAll
  induction elements generalizing s with
  | nil => simp
  | cons a rest ih =>
      simp only [List.foldl_cons, ih, mem_insert, List.mem_cons]
      exact or_left_comm.trans or_assoc.symm

/-- Two sets with the same members are equal. -/
theorem ext [Std.TransOrd α] [Std.LawfulEqOrd α] {s t : FinSet α}
    (same : ∀ a, a ∈ s ↔ a ∈ t) : s = t := by
  cases s with
  | mk m =>
      cases t with
      | mk n =>
          congr 1
          apply FinMap.ext
          intro key
          have members : (m.get? key).isSome = true ↔ (n.get? key).isSome = true := same key
          cases left : m.get? key <;> cases right : n.get? key <;> simp_all

/-- The list of a set holds its members and nothing else. -/
@[simp] theorem mem_toList [DecidableEq α] [Std.LawfulEqOrd α] {s : FinSet α} {a : α} :
    a ∈ s.toList ↔ a ∈ s := by
  show a ∈ s.entries.toList.map Prod.fst ↔ (Assoc.find? a s.entries.toList).isSome = true
  induction s.entries.toList with
  | nil => simp [Assoc.find?]
  | cons entry rest ih =>
      obtain ⟨k, value⟩ := entry
      by_cases h : a = k
      · subst h
        simp [Assoc.find?]
      · simp [Assoc.find?, h, ih]

/-- The members of a union. -/
@[simp] theorem mem_union [DecidableEq α] [Std.TransOrd α] [Std.LawfulEqOrd α] {s t : FinSet α}
    {a : α} : a ∈ s ∪ t ↔ a ∈ s ∨ a ∈ t := by
  show a ∈ s.insertAll t.toList ↔ a ∈ s ∨ a ∈ t
  rw [mem_insertAll, mem_toList]
  exact or_comm

end FinSet

end ScriptHeap
