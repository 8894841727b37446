import ScriptHeap.Proofs.Session.ObjectLaws
import ScriptHeap.Proofs.Value.Labels

/-!
# Labels of objects

A label occurs in an object as a symbol among its keys, in a value at any depth, or in the scope.
Looking for a label finds it in all of these places, and collecting the labels leaves out the
symbols (`HeapObject.containsLabel_iff_mem_labels`).

A relabeling acts on labels and on nothing else: those that occur afterwards are the images of those
that occurred before (`HeapObject.containsLabel_relabel_iff`). Values are joined where keys become
one, and joins drop parts, but what a known value says of its labels covers its parts.

Putting one label in the place of another is the relabeling of that label, except where two keys
become one: the value of the later key stays, and is not joined with the other
(`HeapObject.replaceLabel_eq_relabel_iff`).
-/

namespace ScriptHeap

/-! ### Scopes -/

namespace ScopeChain

theorem labels_relabel (chain : ScopeChain) (r : Relabeling) :
    (chain.relabel r).labels = r.imageAll chain.labels := by
  apply FinSet.ext
  intro label
  simp only [mem_labels, Relabeling.mem_imageAll, relabel, List.mem_map]
  constructor
  · rintro ⟨_, ⟨level, member, rfl⟩, present⟩
    obtain ⟨old, inLevel, image⟩ := Relabeling.mem_imageAll.mp present
    exact ⟨old, ⟨level, member, inLevel⟩, image⟩
  · rintro ⟨old, ⟨level, member, inLevel⟩, image⟩
    exact ⟨_, ⟨level, member, rfl⟩, Relabeling.mem_imageAll.mpr ⟨old, inLevel, image⟩⟩

theorem replaceLabel_eq_relabel (chain : ScopeChain) (old new : Label) :
    chain.replaceLabel old new = chain.relabel (.single old new) := by
  unfold replaceLabel relabel
  congr 1
  refine List.map_congr_left fun level _ => FinSet.ext fun label => ?_
  rw [FinSet.map, FinSet.mem_ofList, List.mem_map, Relabeling.mem_imageAll]
  simp only [FinSet.mem_toList, Relabeling.image_single, FinSet.mem_singleton, eq_comm]

end ScopeChain

/-! ### Keys -/

namespace Key

variable {r : Relabeling} {label : Label}

theorem containsLabel_iff {key : Key} : key.containsLabel label = true ↔ key = .symbol label := by
  cases key with
  | name n => simp [containsLabel]
  | symbol other => simp [containsLabel]

theorem symbol_mem_relabel {key : Key} :
    .symbol label ∈ key.relabel r ↔ ∃ old, key = .symbol old ∧ label ∈ r.image old := by
  cases key with
  | name n => simp [relabel]
  | symbol other => simp [relabel, FinSet.map, FinSet.mem_ofList]

theorem exists_mem_relabel (built : r.Built) (key : Key) : ∃ key', key' ∈ key.relabel r := by
  cases key with
  | name n => exact ⟨.name n, FinSet.mem_singleton.mpr rfl⟩
  | symbol label =>
      obtain ⟨label', image⟩ := built.exists_image label
      exact ⟨.symbol label', symbol_mem_relabel.mpr ⟨label, rfl, image⟩⟩

theorem mem_relabel_single {key key' : Key} {old new : Label} :
    key' ∈ key.relabel (.single old new) ↔ key.replaceLabel old new = key' := by
  cases key with
  | name n =>
      exact FinSet.mem_singleton.trans eq_comm
  | symbol label =>
      simp only [relabel, FinSet.map, FinSet.mem_ofList, List.mem_map, FinSet.mem_toList,
        Relabeling.image_single, FinSet.mem_singleton, exists_eq_left, replaceLabel]
      split <;> rfl

/-- A key that becomes another by the replacement of a label is the symbol of that label. -/
theorem eq_or_eq_of_replaceLabel {key key' : Key} {old new : Label}
    (becomes : key.replaceLabel old new = key') :
    key = key' ∨ key = .symbol old ∧ key' = .symbol new := by
  cases key with
  | name n => exact .inl becomes
  | symbol label =>
      by_cases same : label = old
      · simp_all [replaceLabel]
      · simp_all [replaceLabel]

end Key

/-! ### Shapes -/

namespace Shape

variable {s : Shape} {r : Relabeling} {label : Label}

/-- Known values may stand in slots. -/
theorem slotClosed_known : Value.SlotClosed fun v => v.isUnknown = false where
  absent := rfl
  join left right := by
    rw [Value.isUnknown_join, left, right]
    rfl

theorem mem_labels_iff :
    label ∈ s.labels ↔ (∃ v ∈ s.values, label ∈ v.allLabels) ∨ label ∈ s.scope.chain.labels := by
  unfold labels
  rw [FinSet.mem_union, FinSet.mem_foldl_union]
  simp

/-- The search for a label finds the labels that are collected, and the symbols among the keys. -/
theorem containsLabel_iff :
    s.containsLabel label = true ↔
      label ∈ s.labels ∨ s.properties.contains (.symbol label) = true := by
  have symbols : (∃ key ∈ s.properties.keys, key.containsLabel label = true) ↔
      s.properties.contains (.symbol label) = true := by
    simp only [Key.containsLabel_iff, exists_eq_right, FinMap.mem_keys_iff,
      FinMap.contains_eq_true_iff]
  rw [containsLabel, Bool.or_eq_true, Bool.or_eq_true, List.any_eq_true, List.any_eq_true, symbols,
    mem_labels_iff, ScopeChain.containsLabel_iff]
  simp only [Value.containsLabel_iff]
  exact or_right_comm

/-- The label occurs in a listed property, in its key or in its value. -/
def ListsLabel (s : Shape) (label : Label) : Prop :=
  ∃ key v, s.properties.get? key = some v ∧ (key = .symbol label ∨ label ∈ v.allLabels)

/-- The places where a label can occur. -/
theorem containsLabel_iff_listsLabel :
    s.containsLabel label = true ↔
      s.ListsLabel label ∨ (∃ v ∈ s.fixedSlots, label ∈ v.allLabels) ∨
        label ∈ s.scope.chain.labels := by
  have listed : s.ListsLabel label ↔ (∃ v ∈ s.properties.values, label ∈ v.allLabels) ∨
      s.properties.contains (.symbol label) = true := by
    simp only [ListsLabel, FinMap.mem_values_iff, FinMap.contains_eq_true_iff]
    grind
  rw [containsLabel_iff, mem_labels_iff, listed, values]
  simp only [List.mem_append, or_and_right, exists_or]
  grind

/-! ### Relabeling -/

section

variable {key' : Key} {w : Value}

/-- What is listed after a relabeling is known, if what was listed before is. -/
theorem known_of_get?_relabel (known : ∀ v ∈ s.properties.values, v.isUnknown = false)
    (found : (s.relabel r).properties.get? key' = some w) : w.isUnknown = false := by
  refine Value.foldl_gather_of_join (P := fun w => w.isUnknown = false) ?_ ?_ ?_ w
    ((get?_relabelProperties r s.properties key').symm.trans found)
  · exact slotClosed_known.join
  · rintro _ ⟨⟩
  · intro v member
    obtain ⟨key, old, foundOld, _, rfl⟩ := mem_sources.mp member
    exact (Value.isUnknown_relabel r old).trans
      (known old (FinMap.mem_values_iff.mpr ⟨key, foundOld⟩))

/-- The own labels of what is listed after a relabeling are images of labels that were listed. -/
theorem listsLabel_of_get?_relabel (found : (s.relabel r).properties.get? key' = some w) :
    ∀ label ∈ w.labels, ∃ old, s.ListsLabel old ∧ label ∈ r.image old := by
  refine Value.foldl_gather_of_join
    (P := fun w => ∀ label ∈ w.labels, ∃ old, s.ListsLabel old ∧ label ∈ r.image old) ?_ ?_ ?_ w
    ((get?_relabelProperties r s.properties key').symm.trans found)
  · intro v w left right label member
    exact (Value.mem_labels_of_join member).elim (left label) (right label)
  · rintro _ ⟨⟩
  · intro v member label image
    obtain ⟨key, old, foundOld, _, rfl⟩ := mem_sources.mp member
    rw [Value.relabel_eq] at image
    obtain ⟨source, own, image⟩ := Relabeling.mem_imageAll.mp image
    exact ⟨source, ⟨key, old, foundOld, .inr (Value.mem_allLabels_iff.mpr (.inl own))⟩, image⟩

end

/-- A label of a listed property after a relabeling is the image of one. -/
theorem ListsLabel.of_relabel (built : s.Built)
    (known : ∀ v ∈ s.properties.values, v.isUnknown = false)
    (lists : (s.relabel r).ListsLabel label) :
    ∃ old, s.ListsLabel old ∧ label ∈ r.image old := by
  obtain ⟨key', w, found, rfl | present⟩ := lists
  · obtain ⟨key, listed, becomes⟩ :=
      (contains_relabel s r _).mp (FinMap.contains_eq_true_iff.mpr ⟨w, found⟩)
    obtain ⟨old, rfl, image⟩ := Key.symbol_mem_relabel.mp becomes
    obtain ⟨v, foundOld⟩ := FinMap.contains_eq_true_iff.mp listed
    exact ⟨old, ⟨_, v, foundOld, .inl rfl⟩, image⟩
  · have builtValue := (built.relabel r).value (FinMap.mem_values_iff.mpr ⟨key', found⟩)
    rw [builtValue.layered.allLabels_eq (known_of_get?_relabel known found)] at present
    exact listsLabel_of_get?_relabel found label present

/-- The images of a label of a listed property are labels of listed properties. -/
theorem ListsLabel.relabel (built : s.Built)
    (known : ∀ v ∈ s.properties.values, v.isUnknown = false) (total : r.Built) {old : Label}
    (lists : s.ListsLabel old) (image : label ∈ r.image old) : (s.relabel r).ListsLabel label := by
  obtain ⟨key, v, found, place⟩ := lists
  have listed : s.properties.contains key = true := FinMap.contains_eq_true_iff.mpr ⟨v, found⟩
  rcases place with rfl | present
  · have becomes : .symbol label ∈ (Key.symbol old).relabel r :=
      Key.symbol_mem_relabel.mpr ⟨old, rfl, image⟩
    obtain ⟨w, foundNew⟩ := FinMap.contains_eq_true_iff.mp
      ((contains_relabel s r _).mpr ⟨_, listed, becomes⟩)
    exact ⟨_, w, foundNew, .inl rfl⟩
  · have member : v ∈ s.properties.values := FinMap.mem_values_iff.mpr ⟨key, found⟩
    have knownRead : (s.get key).isUnknown = false := by
      rw [get_of_listed found]
      exact known v member
    obtain ⟨key', becomes⟩ := Key.exists_mem_relabel total key
    obtain ⟨w, foundNew⟩ := FinMap.contains_eq_true_iff.mp
      ((contains_relabel s r key').mpr ⟨key, listed, becomes⟩)
    have builtNew := (built.relabel r).value (FinMap.mem_values_iff.mpr ⟨key', foundNew⟩)
    -- What the key becomes absorbs the relabeled value, and so it has the own labels of that.
    have absorbs := get_relabel_of_listed built.wellFormed knownRead listed becomes
    rw [get_of_listed foundNew, get_of_listed found] at absorbs
    have own : label ∈ (v.relabel r).labels := by
      rw [(built.value member).layered.allLabels_eq (known v member)] at present
      rw [Value.relabel_eq]
      exact Relabeling.mem_imageAll.mpr ⟨old, present, image⟩
    have kept := absorbs.labels builtNew.wellFormed (known_of_get?_relabel known foundNew) label own
    exact ⟨key', w, foundNew, .inr (Value.mem_allLabels_iff.mpr (.inl kept))⟩

theorem labels_scope_relabel (s : Shape) (r : Relabeling) :
    (s.relabel r).scope.chain.labels = r.imageAll s.scope.chain.labels := by
  unfold Shape.relabel
  cases s.scope with
  | unknown => rfl
  | known chain => exact chain.labels_relabel r

/-- The labels that occur after a relabeling are the images of those that occurred before. -/
theorem containsLabel_relabel (built : s.Built)
    (known : ∀ v ∈ s.properties.values, v.isUnknown = false) (total : r.Built) :
    (s.relabel r).containsLabel label = true ↔
      ∃ old, s.containsLabel old = true ∧ label ∈ r.image old := by
  have fixed : (s.relabel r).fixedSlots = s.fixedSlots.map (Value.relabel r) := rfl
  simp only [containsLabel_iff_listsLabel, fixed, List.mem_map, labels_scope_relabel]
  constructor
  · rintro (lists | ⟨_, ⟨v, slot, rfl⟩, present⟩ | present)
    · obtain ⟨old, lists, image⟩ := lists.of_relabel built known
      exact ⟨old, .inl lists, image⟩
    · rw [Value.allLabels_relabel] at present
      obtain ⟨old, present, image⟩ := Relabeling.mem_imageAll.mp present
      exact ⟨old, .inr (.inl ⟨v, slot, present⟩), image⟩
    · obtain ⟨old, present, image⟩ := Relabeling.mem_imageAll.mp present
      exact ⟨old, .inr (.inr present), image⟩
  · rintro ⟨old, lists | ⟨v, slot, present⟩ | present, image⟩
    · exact .inl (lists.relabel built known total image)
    · refine .inr (.inl ⟨_, ⟨v, slot, rfl⟩, ?_⟩)
      rw [Value.allLabels_relabel]
      exact Relabeling.mem_imageAll.mpr ⟨old, present, image⟩
    · exact .inr (.inr (Relabeling.mem_imageAll.mpr ⟨old, present, image⟩))

/-! ### Replacing one label -/

section

variable {old new : Label}

/-- After a replacement, a key has the last of the values of the keys that become it. -/
theorem get?_replaceLabel (formed : s.WellFormed)
    (known : ∀ v ∈ s.properties.values, v.isUnknown = false) (old new : Label) (key' : Key) :
    (s.replaceLabel old new).properties.get? key' =
      (sources (.single old new) s.properties key').getLast? := by
  refine (FinMap.get?_ofList_eq_getLast? _ key').trans (congrArg List.getLast? ?_)
  unfold sources
  simp only [List.filter_map, List.map_map, Function.comp_def, ← Key.mem_relabel_single]
  refine List.map_congr_left fun entry member => ?_
  have listed : entry.2 ∈ s.properties.values :=
    List.mem_map.mpr ⟨entry, List.mem_of_mem_filter member, rfl⟩
  exact Value.replaceLabel_eq_relabel old new (formed.value listed) (known _ listed)

/-- Where two listed keys become one, what the later holds absorbs what the earlier holds. -/
def LaterAbsorbs (s : Shape) (old new : Label) : Prop :=
  ∀ key₁ key₂ v₁ v₂, s.properties.get? key₁ = some v₁ → s.properties.get? key₂ = some v₂ →
    compare key₁ key₂ = .lt → key₁.replaceLabel old new = key₂.replaceLabel old new →
      (v₂.replaceLabel old new).Absorbs (v₁.replaceLabel old new)

/-- No more than two keys become one by the replacement of a label. -/
theorem not_three_become {key₁ key₂ key₃ key' : Key} (first : compare key₁ key₂ = .lt)
    (second : compare key₂ key₃ = .lt) (become₁ : key₁.replaceLabel old new = key')
    (become₂ : key₂.replaceLabel old new = key') (become₃ : key₃.replaceLabel old new = key') :
    False := by
  have third : compare key₁ key₃ = .lt := Std.TransCmp.lt_trans first second
  have one := Key.eq_or_eq_of_replaceLabel become₁
  have two := Key.eq_or_eq_of_replaceLabel become₂
  have three := Key.eq_or_eq_of_replaceLabel become₃
  have h₁ := ne_of_compare_lt first
  have h₂ := ne_of_compare_lt second
  have h₃ := ne_of_compare_lt third
  grind

/-- The last of the values that are gathered under a key is that of the last key that becomes it. -/
theorem latest_of_getLast?_sources {properties : FinMap Key Value} {key' : Key} {w : Value}
    (final : (sources r properties key').getLast? = some w) :
    ∃ key v, properties.get? key = some v ∧ key' ∈ key.relabel r ∧ v.relabel r = w ∧
      ∀ other v', properties.get? other = some v' → key' ∈ other.relabel r →
        other = key ∨ compare other key = .lt := by
  unfold sources at final
  rw [List.getLast?_map] at final
  obtain ⟨⟨key, v⟩, last, rfl⟩ := Option.map_eq_some_iff.mp final
  obtain ⟨listed, becomes⟩ := List.mem_filter.mp (List.mem_of_getLast? last)
  refine ⟨key, v, FinMap.mem_toList_iff.mp listed, of_decide_eq_true becomes, rfl, ?_⟩
  intro other v' found otherBecomes
  have member : (other, v') ∈ properties.toList.filter fun entry => key' ∈ entry.1.relabel r :=
    List.mem_filter.mpr ⟨FinMap.mem_toList_iff.mpr found, decide_eq_true otherBecomes⟩
  exact (Assoc.eq_or_lt_of_getLast? (Assoc.filter_sorted properties.sorted) last member).imp_left
    (congrArg Prod.fst)

/-- A key is listed with the same value by both exactly if no value that it loses matters. -/
theorem get?_replaceLabel_eq_iff (formed : s.WellFormed)
    (known : ∀ v ∈ s.properties.values, v.isUnknown = false) (old new : Label) (key' : Key) :
    (s.replaceLabel old new).properties.get? key' =
        (s.relabel (.single old new)).properties.get? key' ↔
      ∀ key₁ key₂ v₁ v₂, s.properties.get? key₁ = some v₁ → s.properties.get? key₂ = some v₂ →
        compare key₁ key₂ = .lt → key₁.replaceLabel old new = key' →
        key₂.replaceLabel old new = key' →
          (v₂.replaceLabel old new).Absorbs (v₁.replaceLabel old new) := by
  have replaced : ∀ {key v}, s.properties.get? key = some v →
      v.replaceLabel old new = v.relabel (.single old new) := by
    intro key v found
    have listed : v ∈ s.properties.values := FinMap.mem_values_iff.mpr ⟨key, found⟩
    exact Value.replaceLabel_eq_relabel old new (formed.value listed) (known v listed)
  have formedSources : ∀ w ∈ sources (.single old new) s.properties key', w.WellFormed := by
    intro w member
    obtain ⟨key, v, found, _, rfl⟩ := mem_sources.mp member
    exact (formed.value (FinMap.mem_values_iff.mpr ⟨key, found⟩)).relabel _
  have knownSources : ∀ w ∈ sources (.single old new) s.properties key', w.isUnknown = false := by
    intro w member
    obtain ⟨key, v, found, _, rfl⟩ := mem_sources.mp member
    exact (Value.isUnknown_relabel _ v).trans (known v (FinMap.mem_values_iff.mpr ⟨key, found⟩))
  have gathered : (s.relabel (.single old new)).properties.get? key' = _ :=
    get?_relabelProperties (.single old new) s.properties key'
  rw [get?_replaceLabel formed known, gathered, eq_comm,
    Value.foldl_gather_eq_getLast?_iff formedSources knownSources]
  constructor
  · intro lastAbsorbs key₁ key₂ v₁ v₂ found₁ found₂ below becomes₁ becomes₂
    have member₁ := mem_sources.mpr ⟨key₁, v₁, found₁, Key.mem_relabel_single.mpr becomes₁, rfl⟩
    have member₂ := mem_sources.mpr ⟨key₂, v₂, found₂, Key.mem_relabel_single.mpr becomes₂, rfl⟩
    obtain ⟨w, final⟩ := Option.isSome_iff_exists.mp
      (List.getLast?_isSome.mpr (List.ne_nil_of_mem member₂))
    obtain ⟨key₃, v₃, found₃, becomes₃, rfl, latest⟩ := latest_of_getLast?_sources final
    -- The later key is the last one, for a third one would be too many.
    rcases latest key₂ v₂ found₂ (Key.mem_relabel_single.mpr becomes₂) with rfl | beyond
    · obtain rfl := Option.some.inj (found₂.symm.trans found₃)
      rw [replaced found₁, replaced found₂]
      exact lastAbsorbs _ final _ member₁
    · exact (not_three_become below beyond becomes₁ becomes₂
        (Key.mem_relabel_single.mp becomes₃)).elim
  · intro laterAbsorbs w final item member
    obtain ⟨key₂, v₂, found₂, becomes₂, rfl, latest⟩ := latest_of_getLast?_sources final
    obtain ⟨key₁, v₁, found₁, becomes₁, rfl⟩ := mem_sources.mp member
    rcases latest key₁ v₁ found₁ becomes₁ with rfl | below
    · obtain rfl := Option.some.inj (found₁.symm.trans found₂)
      exact Value.join_same (knownSources _ member)
    · rw [← replaced found₁, ← replaced found₂]
      exact laterAbsorbs key₁ key₂ v₁ v₂ found₁ found₂ below (Key.mem_relabel_single.mp becomes₁)
        (Key.mem_relabel_single.mp becomes₂)

theorem scope_replaceLabel (s : Shape) (old new : Label) :
    (s.replaceLabel old new).scope = (s.relabel (.single old new)).scope := by
  unfold replaceLabel relabel
  cases s.scope with
  | unknown => rfl
  | known chain => exact congrArg Scope.known (chain.replaceLabel_eq_relabel old new)

/-- The replacement of a label differs from its relabeling in the listed properties only. -/
theorem replaceLabel_eq_with (formed : s.WellFormed)
    (known : s.Each fun v => v.isUnknown = false) :
    s.replaceLabel old new =
      { s.relabel (.single old new) with
        properties := (s.replaceLabel old new).properties } := by
  have slots : ∀ slot, (s.getSlot slot).replaceLabel old new =
      (s.getSlot slot).relabel (.single old new) :=
    fun slot => Value.replaceLabel_eq_relabel old new (formed slot) (known slot)
  exact Shape.mk.injEq .. |>.mpr ⟨rfl, slots .defaultNumeric, slots .defaultOther,
    slots .internalPrototype, slots .internalValue, scope_replaceLabel s old new⟩

/-- The replacement of a label lists the keys that its relabeling lists. -/
theorem contains_replaceLabel (formed : s.WellFormed)
    (known : ∀ v ∈ s.properties.values, v.isUnknown = false) (key' : Key) :
    (s.replaceLabel old new).properties.contains key' = true ↔
      (s.relabel (.single old new)).properties.contains key' = true := by
  have gathered : (s.relabel (.single old new)).properties.get? key' = _ :=
    get?_relabelProperties (.single old new) s.properties key'
  rw [FinMap.contains, FinMap.contains, get?_replaceLabel formed known, gathered,
    List.getLast?_isSome, Option.isSome_iff_ne_none, ne_eq, ne_eq,
    Value.foldl_gather_eq_none_iff]
  simp

/-- They hold the same in every slot but the symbol that takes the place of the other. -/
theorem getSlot_replaceLabel (formed : s.WellFormed)
    (known : s.Each fun v => v.isUnknown = false) {slot : Slot}
    (other : slot ≠ .property (.symbol new)) :
    (s.replaceLabel old new).getSlot slot = (s.relabel (.single old new)).getSlot slot := by
  rw [replaceLabel_eq_with formed known]
  cases slot with
  | property key' =>
      have same : (s.replaceLabel old new).properties.get? key' =
          (s.relabel (.single old new)).properties.get? key' := by
        refine (get?_replaceLabel_eq_iff formed (fun _ => known.value) old new key').mpr ?_
        intro key₁ key₂ v₁ v₂ _ _ below becomes₁ becomes₂
        -- Only one key becomes a key that is not the new symbol.
        have only : ∀ {key}, Key.replaceLabel old new key = key' → key = key' := fun becomes =>
          (Key.eq_or_eq_of_replaceLabel becomes).resolve_right fun both => other (by rw [both.2])
        exact absurd ((only becomes₁).trans (only becomes₂).symm) (ne_of_compare_lt below)
      exact congrArg (fun found => found.getD ((s.relabel (.single old new)).default key')) same
  | defaultNumeric | defaultOther | internalValue | internalPrototype => rfl

/-- The replacement of a label is its relabeling exactly if no value that is lost matters. -/
theorem replaceLabel_eq_iff (formed : s.WellFormed)
    (known : s.Each fun v => v.isUnknown = false) :
    s.replaceLabel old new = s.relabel (.single old new) ↔ s.LaterAbsorbs old new := by
  have pointwise := get?_replaceLabel_eq_iff formed (fun _ => known.value) old new
  constructor
  · intro same key₁ key₂ v₁ v₂ found₁ found₂ below meet
    exact (pointwise _).mp (by rw [same]) key₁ key₂ v₁ v₂ found₁ found₂ below meet rfl
  · intro later
    have properties : (s.replaceLabel old new).properties =
        (s.relabel (.single old new)).properties := by
      refine FinMap.ext fun key' => (pointwise key').mpr ?_
      intro key₁ key₂ v₁ v₂ found₁ found₂ below becomes₁ becomes₂
      exact later key₁ key₂ v₁ v₂ found₁ found₂ below (becomes₁.trans becomes₂.symm)
    rw [replaceLabel_eq_with formed known, properties]

end

end Shape

/-! ### Objects -/

namespace HeapObject

theorem not_mem_labels_undefinedUnder (keys : FinSet Key) (label : Label) :
    label ∉ (undefinedUnder keys).shape.labels := by
  rw [Shape.mem_labels_iff]
  rintro (⟨v, member, present⟩ | present)
  · rcases List.mem_append.mp member with listed | fixed
    · rw [mem_values_undefinedUnder listed] at present
      cases present
    · have absent : (undefinedUnder keys).shape.fixedSlots = List.replicate 4 .absentModified := rfl
      rw [absent] at fixed
      rw [List.eq_of_mem_replicate fixed] at present
      cases present
  · cases present

/-- The search for a label finds the labels that are collected and the symbols among the keys. The
    two agree on a label, in all objects that list certain keys, exactly if its symbol is not among
    these. -/
theorem containsLabel_iff_mem_labels (label : Label) :
    (∀ o : HeapObject, o.shape.containsLabel label = true ↔
        label ∈ o.shape.labels ∨ o.shape.properties.contains (.symbol label) = true) ∧
      ∀ keys : FinSet Key,
        (∀ o : HeapObject, o.Reachable →
          (∀ listed, o.shape.properties.contains listed = true ↔ listed ∈ keys) →
          (o.shape.containsLabel label = true ↔ label ∈ o.shape.labels)) ↔
        .symbol label ∉ keys := by
  refine ⟨fun o => Shape.containsLabel_iff, fun keys => ⟨?_, ?_⟩⟩
  · intro agree listed
    have contained := Shape.containsLabel_iff.mpr
      (.inr ((contains_undefinedUnder keys (.symbol label)).mpr listed))
    have collected := (agree (undefinedUnder keys) (undefinedUnder_reachable keys)
      (contains_undefinedUnder keys)).mp contained
    exact not_mem_labels_undefinedUnder keys label collected
  · intro missing o _ listed
    rw [Shape.containsLabel_iff, listed]
    exact or_iff_left missing

/-- The label of a symbol that is known by its number. -/
def symbolLabel (n : Nat) : Label := ⟨n, .symbol, none⟩

/-- A symbol that is the only label of an object is found and not collected. -/
theorem lone_symbol_not_collected :
    (undefinedUnder (FinSet.singleton (symbolKey 1))).Reachable ∧
      (undefinedUnder (FinSet.singleton (symbolKey 1))).shape.containsLabel (symbolLabel 1) = true ∧
      symbolLabel 1 ∉ (undefinedUnder (FinSet.singleton (symbolKey 1))).shape.labels := by
  have listed := (contains_undefinedUnder _ (symbolKey 1)).mpr (FinSet.mem_singleton.mpr rfl)
  exact ⟨undefinedUnder_reachable _, Shape.containsLabel_iff.mpr (.inr listed),
    not_mem_labels_undefinedUnder _ _⟩

/-- The labels that occur in a relabeled object are the images of the labels that occur in it. -/
theorem containsLabel_relabel_iff {o : HeapObject} (reachable : o.Reachable)
    (known : ∀ v ∈ o.shape.properties.values, v.isUnknown = false) {r : Relabeling}
    (built : r.Built) (label : Label) :
    (o.relabel r).shape.containsLabel label = true ↔
      ∃ old, o.shape.containsLabel old = true ∧ label ∈ r.image old :=
  Shape.containsLabel_relabel reachable.built known built

/-- An object with two symbols, one of which is an object that is split twice. -/
def splitSymbol : HeapObject :=
  .ofShape ((Shape.absentModified.set (symbolKey 1) (.nestedObject 1)).set (symbolKey 2) .undefined)

theorem splitSymbol_reachable : splitSymbol.Reachable :=
  .set (.set (.new .absentModified) (symbolKey 1) (Value.nestedObject_built 1)) (symbolKey 2)
    .undefined

/-- Two symbols become one, and an object becomes two. -/
def mergedAndDoubled : Relabeling :=
  (merged.add ⟨1, .object, none⟩ ⟨3, .object, none⟩).add ⟨1, .object, none⟩ ⟨5, .object, none⟩

/-- Where the symbols become one the parts are lost, but both images of the object are kept. -/
theorem splitSymbol_keeps_images :
    (splitSymbol.Reachable ∧ (∀ v ∈ splitSymbol.shape.properties.values, v.isUnknown = false) ∧
        mergedAndDoubled.Built) ∧
      ((splitSymbol.relabel mergedAndDoubled).shape.get (symbolKey 4)).parts = [] ∧
      (splitSymbol.relabel mergedAndDoubled).shape.containsLabel ⟨3, .object, none⟩ = true ∧
      (splitSymbol.relabel mergedAndDoubled).shape.containsLabel ⟨5, .object, none⟩ = true ∧
      (splitSymbol.relabel mergedAndDoubled).shape.containsLabel (symbolLabel 4) = true ∧
      (splitSymbol.relabel mergedAndDoubled).shape.containsLabel ⟨1, .object, none⟩ = false := by
  have known : ∀ v ∈ splitSymbol.shape.properties.values, v.isUnknown = false :=
    fun _ => ((Shape.slotClosed_known.empty.set (symbolKey 1) rfl).set (symbolKey 2) rfl).value
  have built : mergedAndDoubled.Built := .add _ _ (.add _ _ (.add _ _ (.add _ _ .empty)))
  have acts := containsLabel_relabel_iff splitSymbol_reachable known built
  have object : splitSymbol.shape.containsLabel ⟨1, .object, none⟩ = true := by decide +kernel
  have symbol : splitSymbol.shape.containsLabel (symbolLabel 2) = true := by decide +kernel
  exact ⟨⟨splitSymbol_reachable, known, built⟩, by decide +kernel,
    (acts _).mpr ⟨_, object, by decide +kernel⟩, (acts _).mpr ⟨_, object, by decide +kernel⟩,
    (acts _).mpr ⟨_, symbol, by decide +kernel⟩, by decide +kernel⟩

/-- Putting one label in the place of another succeeds in a writable object whose values are known.
    It lists the same keys as the relabeling of the one to the other and has the same scope, and it
    agrees with it in all slots but one. They are the same exactly if the value of the later key
    absorbs that of the earlier one where two keys become one. -/
theorem replaceLabel_eq_relabel_iff {o : HeapObject} (reachable : o.Reachable)
    (writable : o.writable = true) (known : ∀ slot, (o.shape.getSlot slot).isUnknown = false)
    (old new : Label) :
    ∃ o', o.replaceLabel old new = .ok o' ∧
      (∀ key, o'.shape.properties.contains key = true ↔
        (o.relabel (.single old new)).shape.properties.contains key = true) ∧
      (∀ slot, slot ≠ .property (.symbol new) →
        o'.shape.getSlot slot = (o.relabel (.single old new)).shape.getSlot slot) ∧
      o'.shape.scope = (o.relabel (.single old new)).shape.scope ∧
      (o' = o.relabel (.single old new) ↔ o.shape.LaterAbsorbs old new) := by
  have formed := reachable.built.wellFormed
  have knownValues : ∀ v ∈ o.shape.properties.values, v.isUnknown = false :=
    fun _ => Shape.Each.value (P := fun v => v.isUnknown = false) known
  have done : o.replaceLabel old new = .ok (.ofShape (o.shape.replaceLabel old new)) := by
    simp [replaceLabel, changeProperties, ofShape, writable]
  refine ⟨_, done, Shape.contains_replaceLabel formed knownValues,
    fun _ => Shape.getSlot_replaceLabel formed known, Shape.scope_replaceLabel o.shape old new, ?_⟩
  rw [← Shape.replaceLabel_eq_iff formed known]
  simp [relabel, ofShape]

/-- An object with two symbols, and a property that may be either of them. -/
def twoSymbols (first second : Value) : HeapObject :=
  .ofShape (((Shape.absentModified.set (symbolKey 1) first).set (symbolKey 2) second).set
    (.name "p") (.objects (.ofList [symbolLabel 1, symbolLabel 2])))

theorem twoSymbols_reachable {first second : Value} (builtFirst : first.Built)
    (builtSecond : second.Built) : (twoSymbols first second).Reachable :=
  .set (.set (.set (.new .absentModified) (symbolKey 1) builtFirst) (symbolKey 2) builtSecond)
    (.name "p") (.objects _)

theorem twoSymbols_known {first second : Value} (knownFirst : first.isUnknown = false)
    (knownSecond : second.isUnknown = false) :
    (twoSymbols first second).shape.Each fun v => v.isUnknown = false :=
  ((Shape.slotClosed_known.empty.set (symbolKey 1) knownFirst).set (symbolKey 2) knownSecond).set
    (.name "p") rfl

/-- The first symbol is `undefined` and the second is `null`. -/
def apart : HeapObject := twoSymbols .undefined .null

/-- The first symbol is `undefined` and the second is `undefined` or `null`. -/
def overlapping : HeapObject := twoSymbols .undefined (Value.null.join .undefined)

/-- If the second symbol takes the place of the first, it is `null`. Relabeled, it is `undefined` or
    `null`. -/
theorem apart_loses_first :
    (apart.Reachable ∧ apart.writable = true ∧
        ∀ slot, (apart.shape.getSlot slot).isUnknown = false) ∧
      ∃ o', apart.replaceLabel (symbolLabel 1) (symbolLabel 2) = .ok o' ∧
        o'.shape.get (symbolKey 2) = .null ∧
        (apart.relabel (.single (symbolLabel 1) (symbolLabel 2))).shape.get (symbolKey 2) =
          Value.null.join .undefined ∧
        o' ≠ apart.relabel (.single (symbolLabel 1) (symbolLabel 2)) :=
  ⟨⟨twoSymbols_reachable .undefined .null, rfl, twoSymbols_known rfl rfl⟩, _, rfl,
    by decide +kernel, by decide +kernel, by decide +kernel⟩

/-- Where the later symbol allows for what the earlier one is, nothing is lost. -/
theorem overlapping_loses_nothing :
    (overlapping.Reachable ∧ overlapping.writable = true ∧
        ∀ slot, (overlapping.shape.getSlot slot).isUnknown = false) ∧
      overlapping.replaceLabel (symbolLabel 1) (symbolLabel 2) =
        .ok (overlapping.relabel (.single (symbolLabel 1) (symbolLabel 2))) ∧
      overlapping.shape.LaterAbsorbs (symbolLabel 1) (symbolLabel 2) := by
  have reachable : overlapping.Reachable := twoSymbols_reachable .undefined (.join .null .undefined)
  have known : overlapping.shape.Each fun v => v.isUnknown = false :=
    twoSymbols_known rfl (Shape.slotClosed_known.join rfl rfl)
  obtain ⟨o', done, _, _, _, same⟩ := replaceLabel_eq_relabel_iff reachable rfl known
    (symbolLabel 1) (symbolLabel 2)
  have equal : o' = overlapping.relabel (.single (symbolLabel 1) (symbolLabel 2)) := by
    cases done
    decide +kernel
  exact ⟨⟨reachable, rfl, known⟩, equal ▸ done, same.mp equal⟩

end HeapObject

end ScriptHeap
