/-!
# Finite maps as sorted association lists

A finite map is the list of its entries in strictly increasing key order. Two maps with the same
look-ups are therefore the same list, so equality of maps is plain equality, and every traversal
visits the keys in order.

The operations come in two layers. `Assoc` holds them on bare lists, for types whose recursion runs
through their own entries; `FinMap` carries the proof that its list is sorted.

Main statements: `Assoc.find?_insert` (an insertion changes exactly one key), `Assoc.insert_sorted`
(and keeps the order), and `FinMap.ext` (look-ups determine the map).
-/

namespace ScriptHeap

universe u v w

/-! ### Entries -/

namespace Assoc

variable {κ : Type u} {ν : Type v} {μ : Type w} [Ord κ]

/-- Entries in strictly increasing key order. -/
def Sorted (entries : List (κ × ν)) : Prop :=
  entries.Pairwise fun a b => compare a.1 b.1 = .lt

/-- The value stored under a key. -/
def find? (key : κ) : List (κ × ν) → Option ν
  | [] => none
  | (k, value) :: rest => if compare key k = .eq then some value else find? key rest

/-- Store a value under a key, in order, in place of what the key held before. -/
def insert (key : κ) (value : ν) : List (κ × ν) → List (κ × ν)
  | [] => [(key, value)]
  | (k, old) :: rest =>
    match compare key k with
    | .lt => (key, value) :: (k, old) :: rest
    | .eq => (key, value) :: rest
    | .gt => (k, old) :: insert key value rest

/-- Drop a key. -/
def erase (key : κ) (entries : List (κ × ν)) : List (κ × ν) :=
  entries.filter fun entry => compare key entry.1 != .eq

/-- Apply a function to every value. -/
def mapValues (f : ν → μ) (entries : List (κ × ν)) : List (κ × μ) :=
  entries.map fun entry => (entry.1, f entry.2)

theorem mem_of_find?_eq_some [Std.LawfulEqOrd κ] {key : κ} {value : ν} {entries : List (κ × ν)}
    (found : find? key entries = some value) : (key, value) ∈ entries := by
  induction entries with
  | nil => simp [find?] at found
  | cons entry rest ih =>
      obtain ⟨k, old⟩ := entry
      simp only [find?] at found
      split at found
      · rename_i same
        cases Std.LawfulEqOrd.eq_of_compare same
        simp_all
      · exact List.mem_cons_of_mem _ (ih found)

theorem mem_insert {key : κ} {value : ν} {entries : List (κ × ν)} {entry : κ × ν}
    (member : entry ∈ insert key value entries) : entry = (key, value) ∨ entry ∈ entries := by
  induction entries with
  | nil => simpa [insert] using member
  | cons head rest ih =>
      obtain ⟨k, old⟩ := head
      simp only [insert] at member
      split at member <;> grind

/-- An insertion changes the look-up of its own key and of no other. -/
theorem find?_insert [DecidableEq κ] [Std.TransOrd κ] [Std.LawfulEqOrd κ] (key other : κ) (value : ν)
    (entries : List (κ × ν)) :
    find? other (insert key value entries) =
      if other = key then some value else find? other entries := by
  induction entries with
  | nil => simp [insert, find?]
  | cons entry rest ih =>
      obtain ⟨k, old⟩ := entry
      simp only [insert]
      split
      · simp [find?]
      · rename_i same
        cases Std.LawfulEqOrd.eq_of_compare same
        by_cases h : other = key <;> simp [find?, h]
      · rename_i later
        have distinct : key ≠ k := by
          rintro rfl
          simp [Std.ReflCmp.compare_self] at later
        by_cases h : other = k
        · subst h
          simp [find?, Ne.symm distinct]
        · simp [find?, h, ih]

/-- An insertion keeps the entries in order. -/
theorem insert_sorted [Std.TransOrd κ] {key : κ} {value : ν} {entries : List (κ × ν)}
    (sorted : Sorted entries) : Sorted (insert key value entries) := by
  induction entries with
  | nil => simp [insert, Sorted]
  | cons entry rest ih =>
      obtain ⟨k, old⟩ := entry
      have tail := List.pairwise_cons.mp sorted
      simp only [insert]
      split
      · rename_i earlier
        refine List.pairwise_cons.mpr ⟨?_, sorted⟩
        intro e member
        rcases List.mem_cons.mp member with rfl | member
        · exact earlier
        · exact Std.TransCmp.lt_trans earlier (tail.1 e member)
      · rename_i same
        refine List.pairwise_cons.mpr ⟨?_, tail.2⟩
        intro e member
        exact Std.TransCmp.lt_of_eq_of_lt same (tail.1 e member)
      · rename_i later
        refine List.pairwise_cons.mpr ⟨?_, ih tail.2⟩
        intro e member
        rcases mem_insert member with rfl | member
        · exact Std.OrientedCmp.gt_iff_lt.mp later
        · exact tail.1 e member

theorem filter_sorted {keep : κ × ν → Bool} {entries : List (κ × ν)} (sorted : Sorted entries) :
    Sorted (entries.filter keep) :=
  List.Pairwise.filter keep sorted

theorem mapValues_sorted {f : ν → μ} {entries : List (κ × ν)} (sorted : Sorted entries) :
    Sorted (mapValues f entries) :=
  List.pairwise_map.mpr sorted

theorem find?_mapValues (f : ν → μ) (key : κ) (entries : List (κ × ν)) :
    find? key (mapValues f entries) = (find? key entries).map f := by
  induction entries with
  | nil => rfl
  | cons entry rest ih =>
      obtain ⟨k, value⟩ := entry
      have unfolded : mapValues f ((k, value) :: rest) = (k, f value) :: mapValues f rest := rfl
      rw [unfolded]
      simp only [find?]
      split <;> simp [ih]

theorem find?_eq_none_of_lt [Std.LawfulEqOrd κ] [Std.TransOrd κ] {key : κ} {entries : List (κ × ν)}
    (below : ∀ entry ∈ entries, compare key entry.1 = .lt) : find? key entries = none := by
  induction entries with
  | nil => rfl
  | cons entry rest ih =>
      obtain ⟨k, value⟩ := entry
      have first : compare key k = .lt := below (k, value) (by simp)
      have others : find? key rest = none :=
        ih fun e member => below e (List.mem_cons_of_mem _ member)
      simp [find?, first, others]

/-- Two sorted lists of entries with the same look-ups are the same list. -/
theorem eq_of_find?_eq [Std.TransOrd κ] [Std.LawfulEqOrd κ] :
    ∀ {left right : List (κ × ν)}, Sorted left → Sorted right →
      (∀ key, find? key left = find? key right) → left = right
  | [], [], _, _, _ => rfl
  | [], (k, value) :: rest, _, _, same => by
      have look := same k
      simp [find?, Std.ReflCmp.compare_self] at look
  | (k, value) :: rest, [], _, _, same => by
      have look := same k
      simp [find?, Std.ReflCmp.compare_self] at look
  | (k, value) :: left, (k', value') :: right, sortedLeft, sortedRight, same => by
      have tailLeft := List.pairwise_cons.mp sortedLeft
      have tailRight := List.pairwise_cons.mp sortedRight
      have heads : k = k' := by
        cases order : compare k k' with
        | eq => exact Std.LawfulEqOrd.eq_of_compare order
        | lt =>
            have absent : find? k right = none :=
              find?_eq_none_of_lt fun e member =>
                Std.TransCmp.lt_trans order (tailRight.1 e member)
            have look := same k
            simp [find?, Std.ReflCmp.compare_self, order, absent] at look
        | gt =>
            have flipped : compare k' k = .lt := Std.OrientedCmp.gt_iff_lt.mp order
            have absent : find? k' left = none :=
              find?_eq_none_of_lt fun e member =>
                Std.TransCmp.lt_trans flipped (tailLeft.1 e member)
            have look := same k'
            simp [find?, Std.ReflCmp.compare_self, flipped, absent] at look
      subst heads
      have values : value = value' := by
        have look := same k
        simpa [find?, Std.ReflCmp.compare_self] using look
      subst values
      have rests : left = right := by
        apply eq_of_find?_eq tailLeft.2 tailRight.2
        intro key
        by_cases h : key = k
        · subst h
          rw [find?_eq_none_of_lt tailLeft.1, find?_eq_none_of_lt tailRight.1]
        · have look := same key
          simpa [find?, h] using look
      rw [rests]

end Assoc

/-! ### Maps -/

/-- A finite map: its entries, in strictly increasing key order. -/
structure FinMap (κ : Type u) (ν : Type v) [Ord κ] where
  toList : List (κ × ν)
  sorted : Assoc.Sorted toList

namespace FinMap

variable {κ : Type u} {ν : Type v} {μ : Type w} [Ord κ]

instance [DecidableEq κ] [DecidableEq ν] : DecidableEq (FinMap κ ν) := fun a b =>
  decidable_of_iff (a.toList = b.toList) (by cases a; cases b; simp)

/-- The map without entries. -/
def empty : FinMap κ ν :=
  ⟨[], List.Pairwise.nil⟩

instance : EmptyCollection (FinMap κ ν) := ⟨empty⟩

instance : Inhabited (FinMap κ ν) := ⟨empty⟩

/-- The value stored under a key. -/
def get? (m : FinMap κ ν) (key : κ) : Option ν :=
  Assoc.find? key m.toList

/-- Whether a key has a value. -/
def contains (m : FinMap κ ν) (key : κ) : Bool :=
  (m.get? key).isSome

/-- Store a value under a key, in place of what the key held before. -/
def insert [Std.TransOrd κ] (m : FinMap κ ν) (key : κ) (value : ν) : FinMap κ ν :=
  ⟨Assoc.insert key value m.toList, Assoc.insert_sorted m.sorted⟩

/-- Drop a key. -/
def erase (m : FinMap κ ν) (key : κ) : FinMap κ ν :=
  ⟨Assoc.erase key m.toList, Assoc.filter_sorted m.sorted⟩

/-- Keep the entries that satisfy a test. -/
def filter (m : FinMap κ ν) (keep : κ → ν → Bool) : FinMap κ ν :=
  ⟨m.toList.filter fun entry => keep entry.1 entry.2, Assoc.filter_sorted m.sorted⟩

/-- Apply a function to every value. -/
def mapValues (m : FinMap κ ν) (f : ν → μ) : FinMap κ μ :=
  ⟨Assoc.mapValues f m.toList, Assoc.mapValues_sorted m.sorted⟩

/-- The keys, in order. -/
def keys (m : FinMap κ ν) : List κ :=
  m.toList.map Prod.fst

/-- The values, in key order. -/
def values (m : FinMap κ ν) : List ν :=
  m.toList.map Prod.snd

/-- The number of entries. -/
def size (m : FinMap κ ν) : Nat :=
  m.toList.length

/-- Whether there is no entry. -/
def isEmpty (m : FinMap κ ν) : Bool :=
  m.toList.isEmpty

/-- Store a list of entries one after the other: of two entries with one key the later stays. -/
def insertAll [Std.TransOrd κ] (m : FinMap κ ν) (entries : List (κ × ν)) : FinMap κ ν :=
  entries.foldl (fun acc entry => acc.insert entry.1 entry.2) m

/-- The map of a list of entries: of two entries with one key the later stays. -/
def ofList [Std.TransOrd κ] (entries : List (κ × ν)) : FinMap κ ν :=
  (empty : FinMap κ ν).insertAll entries

@[simp] theorem get?_empty (key : κ) : (empty : FinMap κ ν).get? key = none := rfl

/-- An insertion changes the look-up of its own key and of no other. -/
theorem get?_insert [DecidableEq κ] [Std.TransOrd κ] [Std.LawfulEqOrd κ] (m : FinMap κ ν)
    (key other : κ) (value : ν) :
    (m.insert key value).get? other = if other = key then some value else m.get? other :=
  Assoc.find?_insert key other value m.toList

/-- Mapping the values maps the look-ups. -/
@[simp] theorem get?_mapValues (m : FinMap κ ν) (f : ν → μ) (key : κ) :
    (m.mapValues f).get? key = (m.get? key).map f :=
  Assoc.find?_mapValues f key m.toList

/-- Look-ups determine the map. -/
theorem ext [Std.TransOrd κ] [Std.LawfulEqOrd κ] {m n : FinMap κ ν}
    (same : ∀ key, m.get? key = n.get? key) : m = n := by
  cases m with
  | mk left sortedLeft =>
      cases n with
      | mk right sortedRight =>
          cases Assoc.eq_of_find?_eq sortedLeft sortedRight same
          rfl

end FinMap

end ScriptHeap
