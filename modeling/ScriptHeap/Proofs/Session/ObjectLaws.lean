import ScriptHeap.Proofs.Session.Reachable

/-!
# Joining and relabeling objects

Objects are joined slot by slot, also under keys that one of them lists or neither. The join is
commutative and associative, with equality of shapes, and an object absorbs itself and the bottom
object exactly if its unknown slots hold nothing but the unknown value
(`HeapObject.join_slotwise`). An unknown value can say more: it may have been modified, and it may
be split into parts, which are lost in a join like everything else.

A relabeling keeps what is known of a key under every key that it becomes, unless the key is only
described by its default and a listed key becomes the same (`HeapObject.relabel_covers_iff`).
-/

namespace ScriptHeap

/-! ### Join -/

namespace Shape

variable {s : Shape}

theorem join_self_iff :
    s.join s = s ↔ ∀ slot, (s.getSlot slot).isUnknown = false ∨ s.getSlot slot = .unknown := by
  have absorbs : s.join s = s ↔ ∀ slot, (s.getSlot slot).Absorbs (s.getSlot slot) :=
    absorbs_iff.trans ⟨fun both => both.2.1, fun slots => ⟨fun _ => id, slots, Scope.join_self _⟩⟩
  exact absorbs.trans (forall_congr' fun slot => Value.join_self_iff _)

theorem getSlot_none (slot : Slot) : Shape.none.getSlot slot = .none := by
  cases slot with
  | property key =>
      show Shape.none.default key = .none
      unfold default
      split <;> rfl
  | defaultNumeric | defaultOther | internalValue | internalPrototype => rfl

theorem join_none_iff (formed : s.WellFormed) :
    s.join .none = s ↔ ∀ slot, (s.getSlot slot).isUnknown = false ∨ s.getSlot slot = .unknown := by
  have scope : s.scope.join Shape.none.scope = s.scope := by
    cases s.scope with
    | unknown => rfl
    | known chain => exact congrArg Scope.known chain.join_empty
  have absorbs : s.join .none = s ↔ ∀ slot, (s.getSlot slot).Absorbs .none := by
    refine absorbs_iff.trans ?_
    simp only [getSlot_none]
    exact ⟨fun both => both.2.1, fun slots => ⟨nofun, slots, scope⟩⟩
  exact absorbs.trans (forall_congr' fun slot => Value.join_none_iff (formed slot))

/-- What is checked of all values of a shape holds of every slot. -/
theorem getSlot_of_all {check : Value → Bool} (all : s.values.all check = true) (slot : Slot) :
    check (s.getSlot slot) = true := by
  have each := List.all_eq_true.mp all
  refine getSlot_of_contents (P := fun v => check v = true) ?_ ?_ slot
  · exact fun v member => each v (List.mem_append_left _ member)
  · exact fun v member => each v (List.mem_append_right _ member)

end Shape

namespace HeapObject

/-- An object is joined with another slot by slot, whichever of them list a key. The join is
    commutative and associative, and an object absorbs itself and the bottom object exactly if its
    unknown slots say nothing more. -/
theorem join_slotwise {a b c : HeapObject} (first : a.Reachable) (second : b.Reachable)
    (third : c.Reachable) :
    (∀ slot, (a.join b).shape.getSlot slot = (a.shape.getSlot slot).join (b.shape.getSlot slot)) ∧
      (a.join b).shape = (b.join a).shape ∧
      ((a.join b).join c).shape = (a.join (b.join c)).shape ∧
      ((a.join a).shape = a.shape ↔
        ∀ slot, (a.shape.getSlot slot).isUnknown = false ∨ a.shape.getSlot slot = .unknown) ∧
      ((a.join (.ofShape .none)).shape = a.shape ↔
        ∀ slot, (a.shape.getSlot slot).isUnknown = false ∨ a.shape.getSlot slot = .unknown) := by
  have formedFirst := first.built.wellFormed
  have formedSecond := second.built.wellFormed
  refine ⟨Shape.getSlot_join a.shape b.shape, ?_, ?_, Shape.join_self_iff,
    Shape.join_none_iff formedFirst⟩
  · exact Shape.join_comm formedFirst formedSecond
  · exact Shape.join_assoc formedFirst formedSecond third.built.wellFormed

/-! ### Unknown values that are split -/

/-- A new object in which a property has been written is reachable. -/
theorem Reachable.set {s : Shape} (reachable : (ofShape s).Reachable) (key : Key) {v : Value}
    (built : v.Built) : (ofShape (s.set key v)).Reachable :=
  .change (.setProperty key v) (by simpa [ObjectChange.values] using built) reachable rfl

/-- An unknown value that is split by its type. -/
def splitUnknown : Value :=
  .partitioned (FinMap.empty.insert (.type ⟨0, 5⟩ 5 .number) .unknown)

theorem splitUnknown_built : splitUnknown.Built := by
  refine .partitioned _ fun part member => ?_
  rw [List.mem_singleton.mp member]
  exact .unknown

/-- An object with such a property. -/
def splitProperty : HeapObject := .ofShape (Shape.absentModified.set (.name "p") splitUnknown)

theorem splitProperty_reachable : splitProperty.Reachable :=
  .set (.new .absentModified) (.name "p") splitUnknown_built

/-- An object with an array index, and nothing else. -/
def indexOnly : HeapObject := .ofShape (Shape.none.set (.name "0") .undefined)

theorem indexOnly_reachable : indexOnly.Reachable := .set (.new .none) (.name "0") .undefined

/-- No unknown value of the object has flags of its own, but a join with itself, or with the bottom
    object, loses the parts of one. -/
theorem splitProperty_not_absorbed :
    splitProperty.Reachable ∧
      (∀ slot, (splitProperty.shape.getSlot slot).isUnknown = true →
        (splitProperty.shape.getSlot slot).flags = Value.unknown.flags) ∧
      (splitProperty.join splitProperty).shape ≠ splitProperty.shape ∧
      (splitProperty.join (.ofShape .none)).shape ≠ splitProperty.shape := by
  refine ⟨splitProperty_reachable, fun slot unknown => ?_, by decide +kernel, by decide +kernel⟩
  have bare : splitProperty.shape.values.all
      (fun v => !v.isUnknown || v.flags = Value.unknown.flags) = true := by decide +kernel
  simpa [unknown] using Shape.getSlot_of_all bare slot

/-- The array index is joined with what the other object says of all of them. The bottom object
    with an index absorbs itself, the split property does not stay. -/
theorem indexOnly_joins :
    (indexOnly.Reachable ∧ splitProperty.Reachable) ∧
      (indexOnly.join splitProperty).shape.get (.name "0") =
        Value.undefined.join .absentModified ∧
      (indexOnly.join splitProperty).shape = (splitProperty.join indexOnly).shape ∧
      ((indexOnly.join splitProperty).join indexOnly).shape =
        (indexOnly.join (splitProperty.join indexOnly)).shape ∧
      (indexOnly.join indexOnly).shape = indexOnly.shape ∧
      (indexOnly.join (.ofShape .none)).shape = indexOnly.shape := by
  obtain ⟨slots, comm, assoc, self, bottom⟩ :=
    join_slotwise indexOnly_reachable splitProperty_reachable indexOnly_reachable
  have known : ∀ slot, (indexOnly.shape.getSlot slot).isUnknown = false ∨
      indexOnly.shape.getSlot slot = .unknown := by
    have all : indexOnly.shape.values.all (fun v => !v.isUnknown) = true := by decide +kernel
    exact fun slot => .inl (by simpa using Shape.getSlot_of_all all slot)
  exact ⟨⟨indexOnly_reachable, splitProperty_reachable⟩, slots (.property (.name "0")), comm, assoc,
    self.mpr known, bottom.mpr known⟩

/-! ### Relabeling -/

/-- What a key becomes absorbs what is known of the key, if the key is listed or no listed key
    becomes the same. -/
theorem relabel_absorbs {o : HeapObject} (reachable : o.Reachable)
    (known : ∀ slot, (o.shape.getSlot slot).isUnknown = false) {r : Relabeling} {key key' : Key}
    (becomes : key' ∈ key.relabel r)
    (seen : o.shape.properties.contains key = true ∨
      ∀ other, o.shape.properties.contains other = true → key' ∉ other.relabel r) :
    ((o.relabel r).shape.get key').Absorbs ((o.shape.get key).relabel r) := by
  rcases seen with listed | free
  · exact Shape.get_relabel_of_listed reachable.built.wellFormed (known (.property key)) listed
      becomes
  · -- Then the key is not listed either, and both read the default.
    have missing : o.shape.properties.get? key = none :=
      Option.not_isSome_iff_eq_none.mp fun listed => free key listed becomes
    have reads : (o.relabel r).shape.get key' = (o.shape.get key).relabel r := by
      rw [Shape.get_of_not_listed missing, ← Shape.default_of_becomes o.shape becomes]
      exact Shape.get_relabel_of_not_image free
    rw [reads]
    exact Value.join_same ((Value.isUnknown_relabel r _).trans (known (.property key)))

/-- An object in which some properties are certainly `undefined`, and all others may be absent. -/
def undefinedUnder (keys : FinSet Key) : HeapObject :=
  .ofShape { Shape.absentModified with
    properties := .ofList (keys.toList.map fun key => (key, .undefined)) }

theorem get?_undefinedUnder (keys : FinSet Key) (key : Key) :
    (undefinedUnder keys).shape.properties.get? key =
      if key ∈ keys then some .undefined else none := by
  refine (FinMap.get?_ofList_map (fun _ => Value.undefined) keys.toList key).trans ?_
  simp only [FinSet.mem_toList]

theorem contains_undefinedUnder (keys : FinSet Key) (key : Key) :
    (undefinedUnder keys).shape.properties.contains key = true ↔ key ∈ keys := by
  rw [FinMap.contains, get?_undefinedUnder]
  split <;> simp_all

theorem mem_values_undefinedUnder {keys : FinSet Key} {v : Value}
    (member : v ∈ (undefinedUnder keys).shape.properties.values) : v = .undefined := by
  obtain ⟨key, found⟩ := FinMap.mem_values_iff.mp member
  rw [get?_undefinedUnder] at found
  split at found
  · exact (Option.some.inj found).symm
  · cases found

theorem undefinedUnder_reachable (keys : FinSet Key) : (undefinedUnder keys).Reachable := by
  refine .change (.setProperties (undefinedUnder keys).shape.properties) ?_
    (.new .absentModified) rfl
  intro v member
  exact mem_values_undefinedUnder member ▸ .undefined

theorem undefinedUnder_known (keys : FinSet Key) :
    ∀ slot, ((undefinedUnder keys).shape.getSlot slot).isUnknown = false := by
  refine Shape.getSlot_of_contents (P := fun v => v.isUnknown = false) ?_ ?_
  · exact fun v member => mem_values_undefinedUnder member ▸ rfl
  · have all : (undefinedUnder keys).shape.fixedSlots.all (fun v => !v.isUnknown) = true := rfl
    simpa using List.all_eq_true.mp all

/-- A key that a listed one becomes is certainly `undefined` after a relabeling. -/
theorem get_relabel_undefinedUnder {keys : FinSet Key} {r : Relabeling} {other key' : Key}
    (listed : other ∈ keys) (becomes : key' ∈ other.relabel r) :
    ((undefinedUnder keys).relabel r).shape.get key' = .undefined := by
  have contained : ((undefinedUnder keys).shape.relabel r).properties.contains key' = true :=
    (Shape.contains_relabel _ r key').mpr ⟨other, (contains_undefinedUnder keys other).mpr listed,
      becomes⟩
  obtain ⟨w, found⟩ := FinMap.contains_eq_true_iff.mp contained
  have nothing : ∀ v : Value, none = some v → v = .undefined := nofun
  rw [relabel, ofShape, Shape.get_of_listed found]
  refine Value.foldl_gather_of_join (P := fun v => v = .undefined) ?_ nothing ?_ w
    ((Shape.get?_relabelProperties r _ key').symm.trans found)
  · rintro _ _ rfl rfl
    rfl
  · intro v member
    obtain ⟨source, old, foundOld, _, rfl⟩ := Shape.mem_sources.mp member
    rw [mem_values_undefinedUnder (FinMap.mem_values_iff.mpr ⟨source, foundOld⟩)]
    rfl

/-- Relabeling keeps what is known of a key, under a key that it becomes, in all objects that list
    certain keys, exactly if the key is among these or none of them becomes the same. -/
theorem relabel_covers_iff (r : Relabeling) (keys : FinSet Key) {key key' : Key}
    (becomes : key' ∈ key.relabel r) :
    (∀ o : HeapObject, o.Reachable → (∀ slot, (o.shape.getSlot slot).isUnknown = false) →
        (∀ listed, o.shape.properties.contains listed = true ↔ listed ∈ keys) →
        ((o.relabel r).shape.get key').Absorbs ((o.shape.get key).relabel r)) ↔
      key ∈ keys ∨ ∀ other ∈ keys, key' ∉ other.relabel r := by
  constructor
  · intro covers
    by_cases listed : key ∈ keys
    · exact .inl listed
    · refine .inr fun other member becomesToo => ?_
      have absorbs := covers (undefinedUnder keys) (undefinedUnder_reachable keys)
        (undefinedUnder_known keys) (contains_undefinedUnder keys)
      have reads : (undefinedUnder keys).shape.get key = .absentModified := by
        rw [Shape.get_of_not_listed (by rw [get?_undefinedUnder, if_neg listed])]
        unfold Shape.default
        split <;> rfl
      rw [get_relabel_undefinedUnder member becomesToo, reads] at absorbs
      have lost : ¬Value.undefined.Absorbs .absentModified := by decide
      exact lost absorbs
  · intro seen o reachable known listed
    refine relabel_absorbs reachable known becomes ?_
    simpa only [listed] using seen

/-- A symbol that is known by its number. -/
def symbolKey (n : Nat) : Key := .symbol ⟨n, .symbol, none⟩

/-- Two symbols become one. -/
def merged : Relabeling :=
  .ofPairs [(⟨1, .symbol, none⟩, ⟨4, .symbol, none⟩), (⟨2, .symbol, none⟩, ⟨4, .symbol, none⟩)]

/-- One of the symbols is certainly `undefined`, the other may be absent. The one that they become
    is certainly `undefined`. -/
theorem merged_loses_default :
    (undefinedUnder (FinSet.singleton (symbolKey 1))).Reachable ∧
      (∀ slot, ((undefinedUnder (FinSet.singleton (symbolKey 1))).shape.getSlot slot).isUnknown =
        false) ∧
      symbolKey 4 ∈ (symbolKey 2).relabel merged ∧
      ¬(((undefinedUnder (FinSet.singleton (symbolKey 1))).relabel merged).shape.get
          (symbolKey 4)).Absorbs
        (((undefinedUnder (FinSet.singleton (symbolKey 1))).shape.get (symbolKey 2)).relabel
          merged) :=
  ⟨undefinedUnder_reachable _, undefinedUnder_known _, by decide +kernel, by decide +kernel⟩

/-- Where the first symbol alone is listed, it is covered in all objects, and the second is not. -/
theorem merged_covers_listed :
    (symbolKey 4 ∈ (symbolKey 1).relabel merged ∧ symbolKey 4 ∈ (symbolKey 2).relabel merged) ∧
      (∀ o : HeapObject, o.Reachable → (∀ slot, (o.shape.getSlot slot).isUnknown = false) →
        (∀ listed, o.shape.properties.contains listed = true ↔
          listed ∈ FinSet.singleton (symbolKey 1)) →
        ((o.relabel merged).shape.get (symbolKey 4)).Absorbs
          ((o.shape.get (symbolKey 1)).relabel merged)) ∧
      ¬∀ o : HeapObject, o.Reachable → (∀ slot, (o.shape.getSlot slot).isUnknown = false) →
        (∀ listed, o.shape.properties.contains listed = true ↔
          listed ∈ FinSet.singleton (symbolKey 1)) →
        ((o.relabel merged).shape.get (symbolKey 4)).Absorbs
          ((o.shape.get (symbolKey 2)).relabel merged) := by
  have first : symbolKey 4 ∈ (symbolKey 1).relabel merged := by decide +kernel
  have second : symbolKey 4 ∈ (symbolKey 2).relabel merged := by decide +kernel
  refine ⟨⟨first, second⟩, (relabel_covers_iff merged _ first).mpr (.inl (by decide +kernel)), ?_⟩
  intro covers
  rcases (relabel_covers_iff merged _ second).mp covers with listed | free
  · revert listed
    decide +kernel
  · exact free (symbolKey 1) (by decide +kernel) first

end HeapObject

end ScriptHeap
