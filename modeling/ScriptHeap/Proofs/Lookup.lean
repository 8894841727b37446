import ScriptHeap.Data.FinSet

/-!
# Look-ups in finite maps and sets

What each operation on a finite map does to its look-ups, and what it means to go through the
entries of one map while another is updated: since the keys of a map are distinct, every key of the
updated map sees at most one entry (`Merge.get?_run`).
-/

namespace ScriptHeap

universe u v w

theorem ne_of_compare_lt {κ : Type u} [Ord κ] [Std.ReflOrd κ] {a b : κ}
    (below : compare a b = .lt) : a ≠ b := by
  rintro rfl
  rw [Std.ReflOrd.compare_self] at below
  cases below

/-- Lists that agree up to a function agree up to every coarser one. -/
theorem map_eq_map_of_coarser {α : Type u} {β : Type v} {γ : Type w} {f : α → β} {g : α → γ}
    (coarser : ∀ a b, f a = f b → g a = g b) {l l' : List α} (same : l.map f = l'.map f) :
    l.map g = l'.map g := by
  induction l generalizing l' with
  | nil => rw [List.map_eq_nil_iff.mp same.symm]
  | cons a rest ih =>
      cases l' with
      | nil => cases same
      | cons b rest' =>
          obtain ⟨first, others⟩ := List.cons.inj same
          rw [List.map_cons, List.map_cons, coarser a b first, ih others]

namespace Assoc

variable {κ : Type u} {ν : Type v} [Ord κ]

theorem find?_eq_some_of_mem [DecidableEq κ] [Std.TransOrd κ] [Std.LawfulEqOrd κ] {key : κ}
    {value : ν} {entries : List (κ × ν)} (sorted : Sorted entries)
    (member : (key, value) ∈ entries) : find? key entries = some value := by
  induction entries with
  | nil => cases member
  | cons entry rest ih =>
      obtain ⟨k, old⟩ := entry
      have tail := List.pairwise_cons.mp sorted
      rcases List.mem_cons.mp member with same | member
      · cases same
        simp [find?]
      · have later : compare k key = .lt := tail.1 (key, value) member
        have distinct : key ≠ k := by
          rintro rfl
          simp at later
        simpa [find?, distinct] using ih tail.2 member

theorem find?_filter [DecidableEq κ] [Std.TransOrd κ] [Std.LawfulEqOrd κ] (keep : κ × ν → Bool)
    (key : κ) {entries : List (κ × ν)} (sorted : Sorted entries) :
    find? key (entries.filter keep) =
      (find? key entries).filter fun value => keep (key, value) := by
  induction entries with
  | nil => rfl
  | cons entry rest ih =>
      obtain ⟨k, value⟩ := entry
      have tail := List.pairwise_cons.mp sorted
      by_cases same : key = k
      · subst same
        cases kept : keep (key, value) with
        | true => simp [List.filter, kept, find?, Option.filter]
        | false =>
            have gone : find? key (rest.filter keep) = none :=
              find?_eq_none_of_lt fun e member => tail.1 e (List.mem_filter.mp member).1
            simp [List.filter, kept, find?, gone, Option.filter]
      · cases kept : keep (k, value) <;> simp [List.filter, kept, find?, same, ih tail.2]

/-- The last entry has the greatest key. -/
theorem eq_or_lt_of_getLast? {entries : List (κ × ν)} (sorted : Sorted entries)
    {last entry : κ × ν} (final : entries.getLast? = some last) (member : entry ∈ entries) :
    entry = last ∨ compare entry.1 last.1 = .lt := by
  obtain ⟨earlier, rfl⟩ := List.getLast?_eq_some_iff.mp final
  rcases List.mem_append.mp member with before | same
  · exact .inr ((List.pairwise_append.mp sorted).2.2 _ before _ (List.mem_singleton.mpr rfl))
  · exact .inl (List.mem_singleton.mp same)

/-- A key that is missing takes a place of its own. -/
theorem length_insert_of_missing {key : κ} {value : ν} {entries : List (κ × ν)}
    (missing : find? key entries = none) :
    (insert key value entries).length = entries.length + 1 := by
  induction entries with
  | nil => rfl
  | cons entry rest ih =>
      obtain ⟨k, old⟩ := entry
      cases order : compare key k with
      | lt => simp [insert, order]
      | eq => simp [find?, order] at missing
      | gt =>
          have later : find? key rest = none := by simpa [find?, order] using missing
          simp [insert, order, ih later]

end Assoc

namespace FinMap

variable {κ : Type u} {ν : Type v} {μ : Type w} [Ord κ] [DecidableEq κ] [Std.TransOrd κ]
  [Std.LawfulEqOrd κ]

/-- The entries of a map are its look-ups. -/
theorem mem_toList_iff {m : FinMap κ ν} {key : κ} {value : ν} :
    (key, value) ∈ m.toList ↔ m.get? key = some value :=
  ⟨Assoc.find?_eq_some_of_mem m.sorted, Assoc.mem_of_find?_eq_some⟩

omit [DecidableEq κ] [Std.TransOrd κ] [Std.LawfulEqOrd κ] in
theorem contains_eq_true_iff {m : FinMap κ ν} {key : κ} :
    m.contains key = true ↔ ∃ value, m.get? key = some value :=
  Option.isSome_iff_exists

theorem mem_values_iff {m : FinMap κ ν} {value : ν} :
    value ∈ m.values ↔ ∃ key, m.get? key = some value := by
  constructor
  · intro member
    obtain ⟨⟨key, _⟩, entry, rfl⟩ := List.mem_map.mp member
    exact ⟨key, mem_toList_iff.mp entry⟩
  · rintro ⟨key, found⟩
    exact List.mem_map.mpr ⟨(key, value), mem_toList_iff.mpr found, rfl⟩

theorem mem_keys_iff {m : FinMap κ ν} {key : κ} :
    key ∈ m.keys ↔ ∃ value, m.get? key = some value := by
  constructor
  · intro member
    obtain ⟨⟨_, value⟩, entry, rfl⟩ := List.mem_map.mp member
    exact ⟨value, mem_toList_iff.mp entry⟩
  · rintro ⟨value, found⟩
    exact List.mem_map.mpr ⟨(key, value), mem_toList_iff.mpr found, rfl⟩

omit [DecidableEq κ] [Std.TransOrd κ] in
theorem nodup_keys (m : FinMap κ ν) : m.keys.Nodup :=
  List.pairwise_map.mpr (m.sorted.imp ne_of_compare_lt)

theorem get?_filter (m : FinMap κ ν) (keep : κ → ν → Bool) (key : κ) :
    (m.filter keep).get? key = (m.get? key).filter (keep key) :=
  Assoc.find?_filter (fun entry => keep entry.1 entry.2) key m.sorted

theorem get?_erase (m : FinMap κ ν) (key other : κ) :
    (m.erase key).get? other = if other = key then none else m.get? other := by
  have filtered : (m.erase key).get? other =
      (m.get? other).filter fun _ => compare key other != .eq :=
    Assoc.find?_filter (fun entry : κ × ν => compare key entry.1 != .eq) other m.sorted
  rw [filtered]
  by_cases same : other = key
  · subst same
    cases m.get? other <;> simp [Option.filter]
  · have kept : (compare key other != .eq) = true := by
      simpa using fun h => same h.symm
    cases m.get? other <;> simp [Option.filter, same, kept]

omit [DecidableEq κ] in
/-- Maps agree up to a function of their values if all look-ups do. -/
theorem mapValues_eq_iff {f : ν → μ} {m n : FinMap κ ν} :
    m.mapValues f = n.mapValues f ↔ ∀ key, (m.get? key).map f = (n.get? key).map f := by
  constructor
  · intro same key
    rw [← get?_mapValues, ← get?_mapValues, same]
  · intro same
    apply ext
    intro key
    rw [get?_mapValues, get?_mapValues, same]

omit [DecidableEq κ] in
/-- Maps that agree up to a function of their values have the same keys. -/
theorem get?_cases_of_mapValues_eq {f : ν → μ} {m n : FinMap κ ν}
    (same : m.mapValues f = n.mapValues f) (key : κ) :
    m.get? key = none ∧ n.get? key = none ∨
    ∃ a b, m.get? key = some a ∧ n.get? key = some b ∧ f a = f b := by
  have lookups := mapValues_eq_iff.mp same key
  cases found : m.get? key with
  | none =>
      rw [found] at lookups
      exact .inl ⟨rfl, Option.map_eq_none_iff.mp lookups.symm⟩
  | some a =>
      rw [found] at lookups
      obtain ⟨b, found', image⟩ := Option.map_eq_some_iff.mp lookups.symm
      exact .inr ⟨a, b, rfl, found', image.symm⟩

omit [DecidableEq κ] [Std.TransOrd κ] [Std.LawfulEqOrd κ] in
/-- What is made of every entry of maps that agree up to a function of their values. -/
theorem map_toList_of_mapValues_eq {γ : Type w} {f : ν → μ} {m n : FinMap κ ν}
    (same : m.mapValues f = n.mapValues f) {g : κ → ν → γ}
    (coarser : ∀ key a b, f a = f b → g key a = g key b) :
    (m.toList.map fun entry => g entry.1 entry.2) =
      n.toList.map fun entry => g entry.1 entry.2 := by
  have entries : m.toList.map (fun entry => (entry.1, f entry.2)) =
      n.toList.map fun entry => (entry.1, f entry.2) := congrArg toList same
  apply map_eq_map_of_coarser _ entries
  rintro ⟨key, a⟩ ⟨key', b⟩ image
  obtain ⟨rfl, values⟩ := Prod.mk.inj image
  exact coarser key a b values

@[simp] theorem get?_insert_self (m : FinMap κ ν) (key : κ) (value : ν) :
    (m.insert key value).get? key = some value := by
  simp [get?_insert]

theorem get?_insert_of_ne (m : FinMap κ ν) {key other : κ} (distinct : other ≠ key) (value : ν) :
    (m.insert key value).get? other = m.get? other := by
  simp [get?_insert, distinct]

theorem contains_insert_of_contains {m : FinMap κ ν} {key other : κ} {value : ν}
    (held : m.contains other = true) : (m.insert key value).contains other = true := by
  unfold contains
  rw [get?_insert]
  split
  · rfl
  · exact held

/-- The map that sends every key of a list to its value under a function. -/
theorem get?_insertAll_map (m : FinMap κ ν) (f : κ → ν) (keys : List κ) (key : κ) :
    (m.insertAll (keys.map fun k => (k, f k))).get? key =
      if key ∈ keys then some (f key) else m.get? key := by
  induction keys generalizing m with
  | nil => simp [insertAll]
  | cons k rest ih =>
      have unfolded : m.insertAll ((k :: rest).map fun k => (k, f k)) =
          (m.insert k (f k)).insertAll (rest.map fun k => (k, f k)) := rfl
      rw [unfolded, ih, get?_insert]
      by_cases inRest : key ∈ rest
      · simp [inRest]
      · by_cases same : key = k
        · simp [same]
        · simp [inRest, same]

theorem get?_insertAll {entries : List (κ × ν)} (sorted : Assoc.Sorted entries) (m : FinMap κ ν)
    (key : κ) : (m.insertAll entries).get? key = (Assoc.find? key entries).or (m.get? key) := by
  induction entries generalizing m with
  | nil => rfl
  | cons entry rest ih =>
      obtain ⟨k, value⟩ := entry
      have tail := List.pairwise_cons.mp sorted
      have unfolded : m.insertAll ((k, value) :: rest) = (m.insert k value).insertAll rest := rfl
      rw [unfolded, ih tail.2, get?_insert]
      by_cases same : key = k
      · subst same
        simp [Assoc.find?, Assoc.find?_eq_none_of_lt tail.1]
      · simp [Assoc.find?, same]

/-- What a map has after entries were added is one of them, or was there before. -/
theorem mem_of_get?_insertAll {entries : List (κ × ν)} {m : FinMap κ ν} {key : κ} {value : ν}
    (found : (m.insertAll entries).get? key = some value) :
    (key, value) ∈ entries ∨ m.get? key = some value := by
  induction entries generalizing m with
  | nil => exact .inr found
  | cons entry rest ih =>
      rcases ih found with member | kept
      · exact .inl (List.mem_cons_of_mem _ member)
      · rw [get?_insert] at kept
        split at kept
        · rename_i same
          obtain rfl := Option.some.inj kept
          exact .inl (same ▸ List.mem_cons_self)
        · exact .inr kept

theorem mem_of_get?_ofList {entries : List (κ × ν)} {key : κ} {value : ν}
    (found : (ofList entries).get? key = some value) : (key, value) ∈ entries := by
  rcases mem_of_get?_insertAll found with member | missing
  · exact member
  · cases missing

/-- Of the entries with one key the last one stays. -/
theorem get?_insertAll_eq_getLast? (m : FinMap κ ν) (entries : List (κ × ν)) (key : κ) :
    (m.insertAll entries).get? key =
      ((entries.filter fun entry => entry.1 = key).map Prod.snd).getLast?.or (m.get? key) := by
  induction entries generalizing m with
  | nil => rfl
  | cons entry rest ih =>
      obtain ⟨k, value⟩ := entry
      have unfolded : m.insertAll ((k, value) :: rest) = (m.insert k value).insertAll rest := rfl
      rw [unfolded, ih]
      by_cases same : k = key
      · subst same
        simp only [decide_true, List.filter_cons_of_pos, List.map_cons, List.getLast?_cons,
          get?_insert_self]
        cases List.getLast? _ <;> rfl
      · rw [get?_insert_of_ne _ (Ne.symm same), List.filter_cons_of_neg (by simpa using same)]

theorem get?_ofList_eq_getLast? (entries : List (κ × ν)) (key : κ) :
    (ofList entries).get? key =
      ((entries.filter fun entry => entry.1 = key).map Prod.snd).getLast? :=
  (get?_insertAll_eq_getLast? empty entries key).trans Option.or_none

theorem mapValues_ofList (f : ν → μ) (entries : List (κ × ν)) :
    (ofList entries).mapValues f = ofList (Assoc.mapValues f entries) := by
  apply ext
  intro key
  rw [get?_mapValues, get?_ofList_eq_getLast?, get?_ofList_eq_getLast?, Assoc.mapValues,
    List.filter_map, List.map_map, ← List.getLast?_map, List.map_map]
  rfl

/-- A map that is laid over another counts where it has an entry. -/
theorem get?_insertAll_toList (m n : FinMap κ ν) (key : κ) :
    (m.insertAll n.toList).get? key = (n.get? key).or (m.get? key) :=
  get?_insertAll n.sorted m key

/-- The map of entries that are in order has these entries. -/
theorem toList_ofList {entries : List (κ × ν)} (sorted : Assoc.Sorted entries) :
    (ofList entries).toList = entries := by
  apply Assoc.eq_of_find?_eq (ofList entries).sorted sorted
  intro key
  have look : (ofList entries).get? key = (Assoc.find? key entries).or none :=
    get?_insertAll sorted empty key
  rw [Option.or_none] at look
  exact look

theorem ofList_toList (m : FinMap κ ν) : ofList m.toList = m := by
  apply ext
  intro key
  show Assoc.find? key (ofList m.toList).toList = Assoc.find? key m.toList
  rw [toList_ofList m.sorted]

theorem get?_ofList_map (f : κ → ν) (keys : List κ) (key : κ) :
    (ofList (keys.map fun k => (k, f k)) : FinMap κ ν).get? key =
      if key ∈ keys then some (f key) else none :=
  get?_insertAll_map empty f keys key

end FinMap

namespace FinSet

variable {α : Type u} [Ord α] [DecidableEq α] [Std.TransOrd α] [Std.LawfulEqOrd α]

theorem mem_filter {s : FinSet α} {keep : α → Bool} {a : α} :
    a ∈ s.filter keep ↔ a ∈ s ∧ keep a = true := by
  show ((s.entries.filter fun a _ => keep a).get? a).isSome = true ↔
    (s.entries.get? a).isSome = true ∧ keep a = true
  rw [FinMap.get?_filter]
  cases s.entries.get? a <;> simp [Option.filter]

theorem mem_erase {s : FinSet α} {a b : α} : b ∈ s.erase a ↔ b ≠ a ∧ b ∈ s := by
  show ((s.entries.erase a).get? b).isSome = true ↔ b ≠ a ∧ (s.entries.get? b).isSome = true
  rw [FinMap.get?_erase]
  by_cases same : b = a <;> simp [same]

@[simp] theorem mem_singleton {a b : α} : b ∈ (singleton a : FinSet α) ↔ b = a := by
  have members : b ∈ (singleton a : FinSet α) ↔ b = a ∨ b ∈ (∅ : FinSet α) := mem_insert
  rw [members]
  simp

omit [DecidableEq α] [Std.TransOrd α] in
theorem nodup_toList (s : FinSet α) : s.toList.Nodup :=
  s.entries.nodup_keys

omit [Std.TransOrd α] in
theorem isEmpty_eq_true_iff {s : FinSet α} : s.isEmpty = true ↔ ∀ a, ¬ a ∈ s := by
  have listed : s.isEmpty = s.toList.isEmpty := by
    simp [isEmpty, toList, FinMap.isEmpty, FinMap.keys]
  rw [listed, List.isEmpty_iff, List.eq_nil_iff_forall_not_mem]
  simp

theorem mem_ofList {elements : List α} {a : α} : a ∈ ofList elements ↔ a ∈ elements := by
  have members : a ∈ ofList elements ↔ a ∈ elements ∨ a ∈ (∅ : FinSet α) := mem_insertAll
  rw [members]
  simp

theorem ofList_toList (s : FinSet α) : ofList s.toList = s := by
  apply ext
  simp [mem_ofList]

/-- The members of sets that are united one after the other. -/
theorem mem_foldl_union {γ : Type w} {items : List γ} {f : γ → FinSet α} {start : FinSet α}
    {a : α} :
    a ∈ items.foldl (fun acc item => acc ∪ f item) start ↔
      a ∈ start ∨ ∃ item ∈ items, a ∈ f item := by
  induction items generalizing start with
  | nil => simp
  | cons item rest ih => simp [ih, or_assoc]

omit [Std.TransOrd α] in
/-- The members of a union of images. -/
theorem mem_bind {β : Type v} [Ord β] [DecidableEq β] [Std.TransOrd β] [Std.LawfulEqOrd β]
    {s : FinSet α} {f : α → FinSet β} {b : β} : b ∈ s.bind f ↔ ∃ a ∈ s, b ∈ f a := by
  unfold bind
  rw [mem_foldl_union]
  simp

omit [DecidableEq α] [Std.TransOrd α] [Std.LawfulEqOrd α] in
theorem pairwise_toList (s : FinSet α) : s.toList.Pairwise fun a b => compare a b = .lt :=
  List.pairwise_map.mpr s.entries.sorted

/-- A set that has all members of another absorbs it. -/
theorem union_eq_left {s t : FinSet α} : s ∪ t = s ↔ ∀ a, a ∈ t → a ∈ s := by
  constructor
  · intro same a member
    rw [← same]
    exact mem_union.mpr (.inr member)
  · intro subset
    apply ext
    intro a
    rw [mem_union]
    exact ⟨fun h => h.elim id (subset a), .inl⟩

theorem union_comm (s t : FinSet α) : s ∪ t = t ∪ s := by
  apply ext
  intro a
  rw [mem_union, mem_union]
  exact or_comm

theorem union_assoc (s t u : FinSet α) : s ∪ t ∪ u = s ∪ (t ∪ u) := by
  apply ext
  intro a
  simp only [mem_union]
  exact or_assoc

theorem union_self (s : FinSet α) : s ∪ s = s :=
  union_eq_left.mpr fun _ member => member

end FinSet

/-! ### Going through the entries of a map -/

/-- How an entry of one map changes the value that another map has under its key: `none` leaves it
    alone. -/
abbrev Merge (ν : Type v) := Option ν → ν → Option ν

namespace Merge

variable {κ : Type u} {ν : Type v} [Ord κ] [DecidableEq κ] [Std.TransOrd κ] [Std.LawfulEqOrd κ]

/-- Let one entry change a map. The flag says whether an entry has changed the map so far. -/
def step (merge : Merge ν) (acc : FinMap κ ν × Bool) (entry : κ × ν) : FinMap κ ν × Bool :=
  match merge (acc.1.get? entry.1) entry.2 with
  | some value => (acc.1.insert entry.1 value, true)
  | none => acc

/-- Let entries change a map, one after the other. -/
def run (merge : Merge ν) (acc : FinMap κ ν × Bool) (entries : List (κ × ν)) :
    FinMap κ ν × Bool :=
  entries.foldl merge.step acc

omit [DecidableEq κ] [Std.LawfulEqOrd κ] in
theorem flag_run (merge : Merge ν) (entries : List (κ × ν)) (acc : FinMap κ ν × Bool)
    (raised : acc.2 = true) : (merge.run acc entries).2 = true := by
  induction entries generalizing acc with
  | nil => exact raised
  | cons entry rest ih =>
      refine ih (merge.step acc entry) ?_
      unfold step
      split
      · rfl
      · exact raised

theorem get?_step_of_ne (merge : Merge ν) (acc : FinMap κ ν × Bool) (entry : κ × ν) {key : κ}
    (distinct : key ≠ entry.1) : (merge.step acc entry).1.get? key = acc.1.get? key := by
  unfold step
  split
  · exact FinMap.get?_insert_of_ne _ distinct _
  · rfl

theorem get?_step_self (merge : Merge ν) (acc : FinMap κ ν × Bool) (key : κ) (value : ν) :
    (merge.step acc (key, value)).1.get? key =
      (merge (acc.1.get? key) value <|> acc.1.get? key) := by
  unfold step
  cases merge (acc.1.get? key) value <;> simp

-- The keys of the remaining entries come after the key of the entry that was just used, so that
-- entry is the only one that its key sees.
theorem get?_run_entries (merge : Merge ν) :
    ∀ {entries : List (κ × ν)} (acc : FinMap κ ν × Bool), Assoc.Sorted entries → ∀ key,
      (merge.run acc entries).1.get? key =
        match Assoc.find? key entries with
        | some value => merge (acc.1.get? key) value <|> acc.1.get? key
        | none => acc.1.get? key
  | [], _, _, _ => rfl
  | (k, value) :: rest, acc, sorted, key => by
      have tail := List.pairwise_cons.mp sorted
      have unfolded : merge.run acc ((k, value) :: rest) =
          merge.run (merge.step acc (k, value)) rest := rfl
      rw [unfolded, get?_run_entries merge (merge.step acc (k, value)) tail.2 key]
      by_cases same : key = k
      · subst same
        rw [Assoc.find?_eq_none_of_lt tail.1]
        simp [Assoc.find?, get?_step_self]
      · have other : Assoc.find? key ((k, value) :: rest) = Assoc.find? key rest := by
          simp [Assoc.find?, same]
        rw [other, get?_step_of_ne merge acc (k, value) same]

/-- A key of the changed map sees the entry of the other map under that key, and no other. -/
theorem get?_run (merge : Merge ν) (m other : FinMap κ ν) (changed : Bool) (key : κ) :
    (merge.run (m, changed) other.toList).1.get? key =
      match other.get? key with
      | some value => merge (m.get? key) value <|> m.get? key
      | none => m.get? key :=
  get?_run_entries merge (m, changed) other.sorted key

omit [DecidableEq κ] [Std.LawfulEqOrd κ] in
/-- Entries that all leave the map alone leave it as it was, and do not raise the flag. -/
theorem run_eq_self (merge : Merge ν) (m : FinMap κ ν) (changed : Bool)
    {entries : List (κ × ν)} (idle : ∀ entry ∈ entries, merge (m.get? entry.1) entry.2 = none) :
    merge.run (m, changed) entries = (m, changed) := by
  induction entries with
  | nil => rfl
  | cons entry rest ih =>
      have first : merge.step (m, changed) entry = (m, changed) := by
        unfold step
        simp [idle entry List.mem_cons_self]
      have unfolded : merge.run (m, changed) (entry :: rest) =
          merge.run (merge.step (m, changed) entry) rest := rfl
      rw [unfolded, first]
      exact ih fun e member => idle e (List.mem_cons_of_mem _ member)

omit [DecidableEq κ] [Std.LawfulEqOrd κ] in
/-- Where the flag is not raised, every entry has left the map alone. -/
theorem idle_of_flag_run (merge : Merge ν) (m : FinMap κ ν) {entries : List (κ × ν)}
    (quiet : (merge.run (m, false) entries).2 = false) :
    ∀ entry ∈ entries, merge (m.get? entry.1) entry.2 = none := by
  induction entries with
  | nil => simp
  | cons entry rest ih =>
      have unfolded : merge.run (m, false) (entry :: rest) =
          merge.run (merge.step (m, false) entry) rest := rfl
      rw [unfolded] at quiet
      cases changed : merge (m.get? entry.1) entry.2 with
      | some value =>
          have raised : (merge.step (m, false) entry).2 = true := by simp [step, changed]
          simp [flag_run merge rest _ raised] at quiet
      | none =>
          have first : merge.step (m, false) entry = (m, false) := by simp [step, changed]
          rw [first] at quiet
          intro e member
          rcases List.mem_cons.mp member with rfl | member
          · exact changed
          · exact ih quiet e member

end Merge

end ScriptHeap
