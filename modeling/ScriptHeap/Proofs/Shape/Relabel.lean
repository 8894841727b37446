import ScriptHeap.Proofs.Shape.Join
import ScriptHeap.Proofs.Value.Semilattice

/-!
# Relabeled properties

A relabeling can split a key into several and let several keys become one. What is listed under a
key afterwards is gathered from the keys that become it: the join of their relabeled values
(`Shape.get?_relabelProperties`). So a listed key loses nothing (`Shape.get_relabel_of_listed`), and
a key that no listed key becomes reads the relabeled default (`Shape.get_relabel_of_not_image`).

A key that is only described by its default is not looked at. If it becomes a key that a listed one
becomes as well, its value is not among those that are gathered there.
-/

namespace ScriptHeap

/-! ### Gathering values -/

namespace Value

/-- Join a value to what has been gathered so far. -/
def gather (gathered : Option Value) (v : Value) : Option Value :=
  some ((gathered.map v.join).getD v)

variable {v : Value} {items : List Value}

theorem foldl_gather_eq_none_iff {start : Option Value} :
    items.foldl gather start = Option.none ↔ start = Option.none ∧ items = [] := by
  induction items generalizing start with
  | nil => simp
  | cons item rest ih => simp [List.foldl_cons, ih, gather]

/-- What joins keep holds of what has been gathered with one more value. -/
theorem gather_of_join {P : Value → Prop} (join : ∀ {v w}, P v → P w → P (v.join w))
    {start : Option Value} (first : ∀ w, start = some w → P w) (holds : P v) :
    ∀ w, gather start v = some w → P w := by
  intro w gathered
  cases start with
  | none =>
      cases gathered
      exact holds
  | some old =>
      cases gathered
      exact join holds (first old rfl)

theorem foldl_gather_of_join {P : Value → Prop} (join : ∀ {v w}, P v → P w → P (v.join w))
    {start : Option Value} (first : ∀ w, start = some w → P w) (each : ∀ item ∈ items, P item) :
    ∀ w, items.foldl gather start = some w → P w := by
  induction items generalizing start with
  | nil => exact first
  | cons item rest ih =>
      exact ih (gather_of_join join first (each item List.mem_cons_self))
        fun other member => each other (List.mem_cons_of_mem _ member)

/-- What has been absorbed stays absorbed. -/
theorem foldl_gather_absorbs {w : Value} (formed : v.WellFormed) (formedStart : w.WellFormed)
    (formedItems : ∀ item ∈ items, item.WellFormed) (absorbed : w.Absorbs v) :
    ∃ w', items.foldl gather (some w) = some w' ∧ w'.Absorbs v := by
  induction items generalizing w with
  | nil => exact ⟨w, rfl, absorbed⟩
  | cons item rest ih =>
      have formedItem := formedItems item List.mem_cons_self
      have still : (item.join w).Absorbs v := by
        rw [Absorbs, join_assoc formedItem formedStart formed, absorbed]
      exact ih (formedItem.join formedStart)
        (fun other member => formedItems other (List.mem_cons_of_mem _ member)) still

/-- What is gathered absorbs each of the values, if they are known. -/
theorem foldl_gather_absorbs_of_mem (formed : ∀ item ∈ items, item.WellFormed)
    (known : v.isUnknown = false) {start : Option Value}
    (formedStart : ∀ w, start = some w → w.WellFormed) (member : v ∈ items) :
    ∃ w, items.foldl gather start = some w ∧ w.Absorbs v := by
  induction items generalizing start with
  | nil => cases member
  | cons item rest ih =>
      have formedItem := formed item List.mem_cons_self
      have formedRest : ∀ other ∈ rest, other.WellFormed :=
        fun other member => formed other (List.mem_cons_of_mem _ member)
      rcases List.mem_cons.mp member with rfl | member
      · -- From here on the value is among what has been gathered.
        cases start with
        | none => exact foldl_gather_absorbs formedItem formedItem formedRest (join_same known)
        | some old =>
            have formedOld := formedStart old rfl
            exact foldl_gather_absorbs (w := v.join old) formedItem (formedItem.join formedOld)
              formedRest (join_absorbs_left formedItem formedOld)
      · refine ih formedRest ?_ member
        exact gather_of_join (fun left right => left.join right) formedStart formedItem

/-- What is gathered from known values is the last of them exactly if that absorbs all of them. -/
theorem foldl_gather_eq_getLast?_iff (formed : ∀ item ∈ items, item.WellFormed)
    (known : ∀ item ∈ items, item.isUnknown = false) :
    items.foldl gather Option.none = items.getLast? ↔
      ∀ last, items.getLast? = some last → ∀ item ∈ items, last.Absorbs item := by
  rcases items.eq_nil_or_concat with rfl | ⟨init, last, rfl⟩
  · simp
  have formedLast := formed last (by simp)
  have formedInit : ∀ item ∈ init, item.WellFormed :=
    fun item member => formed item (by simp [member])
  have nothing : ∀ w : Value, Option.none = some w → w.WellFormed := nofun
  have self : last.Absorbs last := join_same (known last (by simp))
  simp only [List.concat_eq_append, List.foldl_append, List.foldl_cons, List.foldl_nil,
    List.getLast?_append, List.getLast?_singleton, Option.some_or, Option.some.injEq, forall_eq',
    List.forall_mem_append, List.forall_mem_singleton, self, and_true]
  cases gathered : init.foldl gather Option.none with
  | none =>
      obtain ⟨-, rfl⟩ := foldl_gather_eq_none_iff.mp gathered
      simp [gather]
  | some w =>
      have formedGathered : w.WellFormed :=
        foldl_gather_of_join (fun left right => left.join right) nothing formedInit w gathered
      constructor
      · intro same item member
        have above : last.Absorbs w := Option.some.inj same
        obtain ⟨w', again, below⟩ := foldl_gather_absorbs_of_mem formedInit
          (known item (by simp [member])) nothing member
        obtain rfl := Option.some.inj (gathered.symm.trans again)
        exact above.trans formedLast formedGathered (formedInit item member) below
      · intro above
        have both : w.WellFormed ∧ last.Absorbs w := by
          refine foldl_gather_of_join (P := fun w => w.WellFormed ∧ last.Absorbs w) ?_ ?_
            (fun item member => ⟨formedInit item member, above item member⟩) w gathered
          · rintro v w ⟨formedLeft, left⟩ ⟨formedRight, right⟩
            exact ⟨formedLeft.join formedRight,
              absorbs_join formedLast formedLeft formedRight left right⟩
          · rintro _ ⟨⟩
        exact congrArg some both.2

end Value

/-! ### Listed properties -/

namespace Shape

/-- Add a value to what is listed under some keys. -/
theorem get?_foldl_gather (v : Value) {keys : List Key} (distinct : keys.Nodup)
    (acc : FinMap Key Value) (key : Key) :
    (keys.foldl (fun acc key => acc.insert key (((acc.get? key).map v.join).getD v)) acc).get? key =
      if key ∈ keys then Value.gather (acc.get? key) v else acc.get? key := by
  induction keys generalizing acc with
  | nil => simp
  | cons first rest ih =>
      obtain ⟨fresh, distinctRest⟩ := List.nodup_cons.mp distinct
      rw [List.foldl_cons, ih distinctRest]
      by_cases same : key = first
      · subst same
        rw [if_neg fresh, if_pos List.mem_cons_self, FinMap.get?_insert_self]
        rfl
      · rw [FinMap.get?_insert_of_ne _ same]
        simp only [List.mem_cons, same, false_or]

/-- The relabeled values of the listed keys that become a key. -/
def sources (r : Relabeling) (properties : FinMap Key Value) (key : Key) : List Value :=
  (properties.toList.filter fun entry => key ∈ entry.1.relabel r).map fun entry => entry.2.relabel r

theorem mem_sources {r : Relabeling} {properties : FinMap Key Value} {key' : Key} {v : Value} :
    v ∈ sources r properties key' ↔
      ∃ key w, properties.get? key = some w ∧ key' ∈ key.relabel r ∧ w.relabel r = v := by
  unfold sources
  simp only [List.mem_map, List.mem_filter, Prod.exists, FinMap.mem_toList_iff, decide_eq_true_eq,
    and_assoc]

theorem get?_relabelProperties (r : Relabeling) (properties : FinMap Key Value) (key : Key) :
    (relabelProperties r properties).get? key =
      (sources r properties key).foldl Value.gather Option.none := by
  have folded : ∀ (entries : List (Key × Value)) (acc : FinMap Key Value),
      (entries.foldl
        (fun acc entry => (entry.1.relabel r).toList.foldl
          (fun acc key => acc.insert key
            (((acc.get? key).map (entry.2.relabel r).join).getD (entry.2.relabel r))) acc)
        acc).get? key =
      (((entries.filter fun entry => key ∈ entry.1.relabel r).map fun entry =>
        entry.2.relabel r).foldl Value.gather (acc.get? key)) := by
    intro entries
    induction entries with
    | nil => simp
    | cons entry rest ih =>
        intro acc
        rw [List.foldl_cons, ih, get?_foldl_gather _ (FinSet.nodup_toList _)]
        by_cases member : key ∈ entry.1.relabel r
        · simp [member, FinSet.mem_toList]
        · simp [member, FinSet.mem_toList]
  exact folded properties.toList ∅

/-- The keys that are listed after a relabeling are those that listed keys become. -/
theorem contains_relabel (s : Shape) (r : Relabeling) (key' : Key) :
    (s.relabel r).properties.contains key' = true ↔
      ∃ key, s.properties.contains key = true ∧ key' ∈ key.relabel r := by
  have lookup : (s.relabel r).properties.get? key' = _ :=
    get?_relabelProperties r s.properties key'
  rw [FinMap.contains, lookup, Option.isSome_iff_ne_none, ne_eq, Value.foldl_gather_eq_none_iff]
  simp only [true_and, List.eq_nil_iff_forall_not_mem, mem_sources, FinMap.contains_eq_true_iff]
  grind

theorem default_relabel (s : Shape) (r : Relabeling) (key : Key) :
    (s.relabel r).default key = (s.default key).relabel r := by
  unfold default
  split <;> rfl

/-- What a key becomes falls under the default that the key falls under. -/
theorem default_of_becomes (s : Shape) {r : Relabeling} {key key' : Key}
    (becomes : key' ∈ key.relabel r) : s.default key' = s.default key := by
  cases key with
  | name n =>
      rw [FinSet.mem_singleton.mp becomes]
  | symbol label =>
      obtain ⟨label', _, rfl⟩ := List.mem_map.mp (FinSet.mem_ofList.mp becomes)
      rfl

/-- What a listed key becomes absorbs its relabeled value. -/
theorem get_relabel_of_listed {s : Shape} (formed : s.WellFormed) {r : Relabeling}
    {key key' : Key} (known : (s.get key).isUnknown = false)
    (listed : s.properties.contains key = true) (becomes : key' ∈ key.relabel r) :
    ((s.relabel r).get key').Absorbs ((s.get key).relabel r) := by
  obtain ⟨v, found⟩ := FinMap.contains_eq_true_iff.mp listed
  rw [get_of_listed found] at known ⊢
  have formedSources : ∀ w ∈ sources r s.properties key', w.WellFormed := by
    intro w member
    obtain ⟨other, old, foundOther, _, rfl⟩ := mem_sources.mp member
    have formedOld : (s.get other).WellFormed := formed (.property other)
    rw [get_of_listed foundOther] at formedOld
    exact formedOld.relabel r
  have nothing : ∀ w : Value, Option.none = some w → w.WellFormed := nofun
  obtain ⟨w, gathered, absorbs⟩ := Value.foldl_gather_absorbs_of_mem formedSources
    ((Value.isUnknown_relabel r v).trans known) nothing
    (mem_sources.mpr ⟨key, v, found, becomes, rfl⟩)
  have lookup : (s.relabel r).properties.get? key' = some w :=
    (get?_relabelProperties r s.properties key').trans gathered
  rw [get_of_listed lookup]
  exact absorbs

/-- A key that no listed key becomes reads the relabeled default. -/
theorem get_relabel_of_not_image {s : Shape} {r : Relabeling} {key' : Key}
    (free : ∀ key, s.properties.contains key = true → key' ∉ key.relabel r) :
    (s.relabel r).get key' = (s.default key').relabel r := by
  rw [← default_relabel]
  refine get_of_not_listed (Option.not_isSome_iff_eq_none.mp fun listed => ?_)
  obtain ⟨key, contained, becomes⟩ := (contains_relabel s r key').mp listed
  exact free key contained becomes

/-- A property that joins keep holds of all slots after a relabeling, if it holds of all relabeled
    values. -/
theorem getSlot_relabel_of_join {P : Value → Prop} (join : ∀ {v w}, P v → P w → P (v.join w))
    {s : Shape} {r : Relabeling} (each : ∀ slot, P ((s.getSlot slot).relabel r)) (slot : Slot) :
    P ((s.relabel r).getSlot slot) := by
  cases slot with
  | property key =>
      show P ((s.relabel r).get key)
      cases found : (s.relabel r).properties.get? key with
      | none =>
          rw [get_of_not_listed found, default_relabel]
          unfold default
          split
          · exact each .defaultNumeric
          · exact each .defaultOther
      | some w =>
          rw [get_of_listed found]
          refine Value.foldl_gather_of_join join nofun ?_ w
            ((get?_relabelProperties r s.properties key).symm.trans found)
          intro v member
          obtain ⟨source, old, foundOld, _, rfl⟩ := mem_sources.mp member
          have holds : P ((s.get source).relabel r) := each (.property source)
          rw [get_of_listed foundOld] at holds
          exact holds
  | defaultNumeric => exact each .defaultNumeric
  | defaultOther => exact each .defaultOther
  | internalValue => exact each .internalValue
  | internalPrototype => exact each .internalPrototype

end Shape

end ScriptHeap
