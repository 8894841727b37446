import ScriptHeap.Proofs.Analysis.EntryValues
import ScriptHeap.Proofs.Session.Reachable
import ScriptHeap.Proofs.State.Merge
import ScriptHeap.Proofs.Transfer.Order

/-!
# Properties of known and of unknown name

A read or a write of a property whose name is not known stands for one under any name. A read does
so without exception: it covers every read under a known name (`State.readAnyProperty_covers`). A
write does so for the labels that have an object; for the others it does nothing, while a write
under a known name gives them one (`State.writeAnyProperty_covers_iff`).

A write to a single label replaces what the label's object held, also where the label stands for
several objects: what the old object held stays possible as long as nothing else is written under
the same key (`State.readProperty_after_writes`).
-/

namespace ScriptHeap

/-! ### Values of slots -/

namespace Value

variable {a b v w : Value}

/-- What is read keeps the order of what is held. -/
theorem Absorbs.none_join (formed : a.WellFormed) (formedOther : b.WellFormed)
    (above : a.Absorbs b) : (none.join a).Absorbs (none.join b) := by
  have bottom : none.WellFormed := .ofFlags {}
  have upper : (none.join a).WellFormed := bottom.join formed
  have covers : (none.join a).Absorbs b :=
    (join_absorbs bottom formed).trans upper formed formedOther above
  exact absorbs_join upper bottom formedOther (join_absorbs_left bottom formed) covers

/-- A known value absorbs itself when its slot may be absent as well. -/
theorem joinAbsent_absorbs (formed : v.WellFormed) (known : v.isUnknown = false) :
    v.joinAbsent.Absorbs v := by
  have flags : ({ v.joinAbsent.flags.join v.flags with
      anyString := v.joinAbsent.flags.anyString } : Flags) = v.joinAbsent.flags := by
    simp [joinAbsent, Flags.join]
  have strings := joinStrings_same v formed
  rw [← Bool.or_self v.flags.anyString] at strings
  -- Whether the parts of the two are joined or kept does not depend on the flag.
  have parts := joinedParts_same formed known
  unfold joinedParts at parts
  refine (absorbs_iff formed.joinAbsent known known).mpr ⟨flags, ?_, FinSet.union_self _, ?_⟩
  · simpa [joinAbsent] using strings
  · unfold joinedParts
    by_cases whole : v.parts.isEmpty = true
    · simp_all [joinAbsent]
    · simpa [joinAbsent, whole] using parts

/-- A value that is joined with one that may be absent as well absorbs the join without. -/
theorem join_joinAbsent_absorbs (formed : v.WellFormed) (formedOther : w.WellFormed) :
    (v.join w.joinAbsent).Absorbs (v.join w) := by
  cases unknown : w.isUnknown with
  | true =>
      have all : v.join w.joinAbsent = Value.unknown :=
        join_unknown (by rw [show w.joinAbsent.isUnknown = true from unknown, Bool.or_true])
      rw [all]
      exact join_unknown rfl
  | false =>
      have upper := formed.join formedOther.joinAbsent
      have right : (v.join w.joinAbsent).Absorbs w :=
        (join_absorbs formed formedOther.joinAbsent).trans upper formedOther.joinAbsent formedOther
          (joinAbsent_absorbs formedOther unknown)
      exact absorbs_join upper formed formedOther
        (join_absorbs_left formed formedOther.joinAbsent) right

/-- Bottom absorbs nothing but bottom. -/
theorem not_none_absorbs (formed : v.WellFormed) (present : v.isNone = false) :
    ¬ none.Absorbs (none.join v) := by
  intro absorbed
  have bottom : none.WellFormed := .ofFlags {}
  have same : none.join v = none :=
    calc none.join v = (none.join none).join v := rfl
      _ = none.join (none.join v) := join_assoc bottom bottom formed
      _ = none := absorbed
  cases unknown : v.isUnknown with
  | true =>
      rw [join_unknown (by simp [unknown])] at same
      cases same
  | false =>
      rw [none_join formed unknown] at same
      rw [same] at present
      cases present

/-- A join with a known value that is not bottom is not bottom. -/
theorem isNone_join_of_left (formed : v.WellFormed) (known : v.isUnknown = false)
    (present : v.isNone = false) : (v.join w).isNone = false := by
  cases unknown : w.isUnknown with
  | true =>
      rw [join_unknown (by simp [unknown])]
      rfl
  | false => rw [isNone_join formed known unknown, present, Bool.false_and]

end Value

/-! ### Reading -/

namespace Contents

/-- A read of unknown name absorbs a read under any name. -/
theorem readAnyProperty_absorbs {c : Contents} (formed : c.Each Value.WellFormed)
    (labels : LabelSet) (key : Key) :
    (c.readAnyProperty labels).Absorbs (c.readProperty labels key) := by
  have any : c.readAnyProperty labels = _ := foldl_readValues c labels none
  have named : c.readProperty labels key = _ := foldl_readValues c labels (some key)
  have bottom : Value.none.WellFormed := .ofFlags {}
  have formedAll : ∀ v ∈ c.readValues labels none, v.WellFormed := formed.readValues
  rw [any, named]
  refine Value.absorbs_foldl ?_ formed.readValues bottom ?_ ?_
  · exact .foldl_join (f := id) _ bottom formedAll
  · exact Value.Absorbs.foldl_join formedAll bottom bottom rfl
  · intro v member
    obtain ⟨shape, found, rfl⟩ := List.mem_map.mp member
    refine Value.foldl_join_absorbs formedAll bottom _ ?_
    exact List.mem_flatMap.mpr ⟨shape, found, get_mem_anyPropertyValues shape key⟩

end Contents

namespace State

variable {s : State} {label : Label}

theorem Built.contents_wellFormed (built : s.Built) : s.contents.Each Value.WellFormed where
  registers := fun r v found => (built.registers r v found).wellFormed
  shapes := fun label shape found slot => (built.shapes label shape found slot).wellFormed

/-- In a state with values that can be built, a read of unknown name covers a read under any
    name. -/
theorem readAnyProperty_covers (built : s.Built) (labels : LabelSet) (key : Key) :
    (s.readAnyProperty labels).join (s.readProperty labels key) = s.readAnyProperty labels := by
  rw [readAnyProperty_contents, readProperty_contents]
  exact Contents.readAnyProperty_absorbs built.contents_wellFormed labels key

/-- The label of the objects that the first node makes. -/
def firstObject : Label := ⟨1, .object, none⟩

/-- A program body that has made an object. -/
def bodyWith (o : HeapObject) : State :=
  (initial .initial 0 .main false).1.newObject firstObject o

theorem bodyWith_built {o : HeapObject} (built : o.shape.Built) : (bodyWith o).Built where
  registers := (initial_built .initial 0 .main false).registers
  shapes := newObject_shapes Shape.slotClosed_built (initial_built .initial 0 .main false).shapes
    firstObject built

theorem bodyWith_property {v : Value} (built : v.Built) :
    (bodyWith (.withProperty v)).Built :=
  bodyWith_built (Shape.slotClosed_built.empty.set (.name "p") built)

/-- A property that is split twice, read through a label with an object and one without. -/
theorem nestedSplit_read_covered :
    (bodyWith (.withProperty (.nestedSplit "x"))).Built ∧
      ((bodyWith (.withProperty (.nestedSplit "x"))).readAnyProperty
          (.ofList [firstObject, ⟨2, .object, none⟩])).join
        ((bodyWith (.withProperty (.nestedSplit "x"))).readProperty
          (.ofList [firstObject, ⟨2, .object, none⟩]) (.name "p")) =
      (bodyWith (.withProperty (.nestedSplit "x"))).readAnyProperty
        (.ofList [firstObject, ⟨2, .object, none⟩]) :=
  ⟨bodyWith_property (Value.nestedSplit_built "x"),
    readAnyProperty_covers (bodyWith_property (Value.nestedSplit_built "x")) _ _⟩

theorem readProperty_singleton (s : State) (label : Label) (key : Key) :
    s.readProperty (FinSet.singleton label) key =
      ((s.shapes label).map fun shape => Value.none.join (shape.get key)).getD .none := by
  rw [readProperty_contents]
  unfold Contents.readProperty Contents.shapesOf
  rw [FinSet.toList_singleton, show s.contents.shapes = s.shapes from rfl]
  cases found : s.shapes label <;> simp [found]

/-! ### Writing under an unknown name -/

theorem readProperty_writeAnyProperty (s : State) (labels : LabelSet) (v : Value) :
    ∃ s', s.writeAnyProperty labels v = .ok s' ∧ ∀ label ∈ labels, ∀ key,
      s'.readProperty (FinSet.singleton label) key =
        ((s.shapes label).map fun shape =>
          Value.none.join ((shape.get key).join v.joinModified.joinAbsent)).getD .none := by
  obtain ⟨s', done, changes⟩ := writeAnyProperty_changes s labels v
  refine ⟨s', done, fun label member key => ?_⟩
  have shapes : s'.shapes label =
      (s.shapes label).map (Shape.storeAny v.joinModified.joinAbsent) := by
    rw [changes.shapes]
    exact if_pos member
  rw [readProperty_singleton, shapes, Option.map_map]
  simp only [Function.comp_def, Shape.get_storeAny]

theorem readProperty_weakWriteProperty (s : State) (labels : LabelSet) (key : Key) (v : Value) :
    ∃ s', s.weakWriteProperty labels key v = .ok s' ∧ ∀ label ∈ labels, ∀ other,
      s'.readProperty (FinSet.singleton label) other =
        Value.none.join ((((s.shapes label).getD .absentModified).store false key
          v.joinModified).get other) := by
  obtain ⟨s', done, changes⟩ := foldlM_storeProperty_changes false key v.joinModified labels s
  refine ⟨s', done, fun label member other => ?_⟩
  have shapes : s'.shapes label =
      some (((s.shapes label).getD .absentModified).store false key v.joinModified) := by
    rw [changes.shapes]
    exact if_pos member
  rw [readProperty_singleton, shapes]
  rfl

theorem heap_contains_iff :
    s.heap.contains label = true ↔ ∃ shape, s.shapes label = some shape := by
  unfold FinMap.contains shapes object?
  cases s.heap.get? label <;> simp

/-- A property of unknown name that is written to some labels and one of known name that is written
    weakly to the same: for the labels that have an object, and for no others, every key reads after
    the first as something that covers what it reads as after the second. -/
theorem writeAnyProperty_covers_iff (built : s.Built) {v : Value} (builtValue : v.Built)
    (labels : LabelSet) (key : Key) :
    ∃ a b, s.writeAnyProperty labels v = .ok a ∧ s.weakWriteProperty labels key v = .ok b ∧
      ∀ label ∈ labels, ∀ other,
        ((a.readProperty (FinSet.singleton label) other).Absorbs
          (b.readProperty (FinSet.singleton label) other) ↔ s.heap.contains label = true) := by
  obtain ⟨a, writtenAny, readsAny⟩ := readProperty_writeAnyProperty s labels v
  obtain ⟨b, written, reads⟩ := readProperty_weakWriteProperty s labels key v
  refine ⟨a, b, writtenAny, written, fun label member other => ?_⟩
  have formedValue := builtValue.wellFormed.joinModified
  rw [readsAny label member, reads label member, heap_contains_iff, Shape.get_store]
  cases found : s.shapes label with
  | none =>
      -- The weak write has made an object, of which every property may be absent.
      have formed : Value.absentModified.WellFormed := .ofFlags _
      have empty : ∀ key, Shape.absentModified.get key = .absentModified := fun key => ite_self _
      simp only [Option.map_none, Option.getD_none, reduceCtorEq, exists_false, iff_false,
        Bool.false_eq_true, if_false, empty]
      split
      · exact Value.not_none_absorbs (formed.join formedValue)
          (Value.isNone_join_of_left formed rfl rfl)
      · exact Value.not_none_absorbs formed rfl
  | some shape =>
      have formed : ∀ key, (shape.get key).WellFormed := fun key =>
        (built.shapes label shape found (.property key)).wellFormed
      simp only [Option.map_some, Option.getD_some, Option.some.injEq, exists_eq', iff_true,
        Bool.false_eq_true, if_false]
      refine Value.Absorbs.none_join ((formed other).join formedValue.joinAbsent) ?_ ?_
      · split
        · exact (formed key).join formedValue
        · exact formed other
      · split
        · rename_i same
          subst same
          exact Value.join_joinAbsent_absorbs (formed other) formedValue
        · exact Value.join_absorbs_left (formed other) formedValue.joinAbsent

/-- The global object and one with a split property are written: the second reads as covered under
    every key. -/
theorem nestedSplit_write_covered :
    ((bodyWith (.withProperty (.nestedSplit "x"))).Built ∧ Value.null.Built) ∧
      ∃ a b,
        (bodyWith (.withProperty (.nestedSplit "x"))).writeAnyProperty
          (.ofList [.global, firstObject]) .null = .ok a ∧
        (bodyWith (.withProperty (.nestedSplit "x"))).weakWriteProperty
          (.ofList [.global, firstObject]) (.name "p") .null = .ok b ∧
        ∀ key, (a.readProperty (FinSet.singleton firstObject) key).Absorbs
          (b.readProperty (FinSet.singleton firstObject) key) := by
  have built := bodyWith_property (Value.nestedSplit_built "x")
  obtain ⟨a, b, writtenAny, written, covers⟩ := writeAnyProperty_covers_iff built .null
    (.ofList [.global, firstObject]) (.name "p")
  refine ⟨⟨built, .null⟩, a, b, writtenAny, written, fun key => ?_⟩
  exact (covers firstObject (FinSet.mem_ofList.mpr (by simp)) key).mpr rfl

/-- A label without an object: a write of unknown name is lost, and a weak write under a name is
    not. -/
theorem unmade_write_lost :
    (initial .initial 0 .main false).1.Built ∧
      ∃ a b,
        (initial .initial 0 .main false).1.writeAnyProperty (FinSet.singleton firstObject) .null =
          .ok a ∧
        (initial .initial 0 .main false).1.weakWriteProperty (FinSet.singleton firstObject)
          (.name "p") .null = .ok b ∧
        a.readProperty (FinSet.singleton firstObject) (.name "p") = .none ∧
        b.readProperty (FinSet.singleton firstObject) (.name "p") =
          Value.null.joinAbsent.joinModified ∧
        ¬ (a.readProperty (FinSet.singleton firstObject) (.name "p")).Absorbs
          (b.readProperty (FinSet.singleton firstObject) (.name "p")) := by
  obtain ⟨a, writtenAny, readsAny⟩ := readProperty_writeAnyProperty
    (initial .initial 0 .main false).1 (FinSet.singleton firstObject) .null
  obtain ⟨b, written, reads⟩ := readProperty_weakWriteProperty
    (initial .initial 0 .main false).1 (FinSet.singleton firstObject) (.name "p") .null
  have member : firstObject ∈ FinSet.singleton firstObject := FinSet.mem_singleton.mpr rfl
  refine ⟨initial_built _ _ _ _, a, b, writtenAny, written, ?_⟩
  rw [readsAny _ member, reads _ member]
  decide

end State

/-! ### Writing one label -/

/-- The value that some writes leave under a key, unless none of them is to it. -/
def lastWrite (key : Key) (writes : List (Key × Value)) : Option Value :=
  ((writes.filter fun write => write.1 = key).map Prod.snd).getLast?

theorem lastWrite_cons (key : Key) (write : Key × Value) (writes : List (Key × Value)) :
    lastWrite key (write :: writes) =
      (lastWrite key writes).or (if key = write.1 then some write.2 else none) := by
  unfold lastWrite
  by_cases same : key = write.1
  · rw [if_pos same, List.filter_cons_of_pos (by simp [same]), List.map_cons, List.getLast?_cons]
    cases List.getLast? _ <;> rfl
  · rw [if_neg same, List.filter_cons_of_neg (by simpa using Ne.symm same), Option.or_none]

namespace State

variable {s : State} {label : Label}

/-- Write properties of the object of one label, one after the other. -/
def writeAll (s : State) (label : Label) (writes : List (Key × Value)) : Except Error State :=
  writes.foldlM (fun s write => s.writeProperty (FinSet.singleton label) write.1 write.2) s

theorem writeProperty_singleton {shape : Shape} (held : s.shapes label = some shape) (key : Key)
    (v : Value) :
    ∃ s', s.writeProperty (FinSet.singleton label) key v = .ok s' ∧
      s'.shapes label = some (shape.set key v.joinModified) := by
  obtain ⟨s', done, changes⟩ := writeProperty_changes s (FinSet.singleton label) key v
  refine ⟨s', done, ?_⟩
  rw [changes.shapes]
  show (if label ∈ FinSet.singleton label then _ else _) = _
  rw [if_pos (FinSet.mem_singleton.mpr rfl), show s.contents.shapes label = some shape from held]
  rfl

/-- After some writes to one label, each key reads as what was written to it last, or as it did
    before. -/
theorem readProperty_writeAll {shape : Shape} (held : s.shapes label = some shape)
    (writes : List (Key × Value)) :
    ∃ s', s.writeAll label writes = .ok s' ∧ ∀ key,
      s'.readProperty (FinSet.singleton label) key =
        Value.none.join (((lastWrite key writes).map Value.joinModified).getD (shape.get key)) := by
  induction writes generalizing s shape with
  | nil =>
      refine ⟨s, rfl, fun key => ?_⟩
      rw [readProperty_singleton, held]
      rfl
  | cons write rest ih =>
      obtain ⟨s₁, first, held₁⟩ := writeProperty_singleton held write.1 write.2
      obtain ⟨s', later, reads⟩ := ih held₁
      refine ⟨s', by rw [writeAll, List.foldlM_cons, first]; exact later, fun key => ?_⟩
      rw [reads, lastWrite_cons, Shape.get_set]
      by_cases same : key = write.1
      · simp only [same, if_true]
        cases lastWrite write.1 rest <;> rfl
      · simp only [same, if_false, Option.or_none]

theorem shapes_newObject_of_held {old : HeapObject} (held : s.object? label = some old)
    (o : HeapObject) : (s.newObject label o).shapes label = some (old.shape.join o.shape) := by
  rw [shapes_newObject, show s.shapes label = some old.shape from shapes_of_object held]
  exact if_pos rfl

/-- A new object is stored under a label that has one already, and properties of the label are
    written afterwards. A key that is not written reads as the join of what it was in both objects,
    and any other key as what was written to it last, which is then modified. What it was in the old
    object is covered exactly if it is not written or if this value covers it. -/
theorem readProperty_after_writes (built : s.Built) {old o : HeapObject}
    (held : s.object? label = some old) (fresh : o.shape.Built) (writes : List (Key × Value)) :
    ∃ s', (s.newObject label o).writeAll label writes = .ok s' ∧ ∀ key,
      (lastWrite key writes = none →
        s'.readProperty (FinSet.singleton label) key =
          (old.shape.get key).join (o.shape.get key)) ∧
      (∀ v, lastWrite key writes = some v →
        s'.readProperty (FinSet.singleton label) key = Value.none.join v.joinModified) ∧
      ((s'.readProperty (FinSet.singleton label) key).Absorbs (old.shape.get key) ↔
        ∀ v, lastWrite key writes = some v →
          (Value.none.join v.joinModified).Absorbs (old.shape.get key)) := by
  obtain ⟨s', done, reads⟩ := readProperty_writeAll (shapes_newObject_of_held held o) writes
  refine ⟨s', done, fun key => ?_⟩
  have formedOld :=
    (built.shapes label old.shape (shapes_of_object held) (.property key)).wellFormed
  have formedNew := (fresh (.property key)).wellFormed
  have unwritten : Value.none.join ((old.shape.join o.shape).get key) =
      (old.shape.get key).join (o.shape.get key) := by
    rw [Shape.get_join]
    exact Value.none_join_join formedOld formedNew
  rw [reads key]
  cases last : lastWrite key writes with
  | none =>
      refine ⟨fun _ => unwritten, nofun, iff_of_true ?_ nofun⟩
      show (Value.none.join ((old.shape.join o.shape).get key)).Absorbs _
      rw [unwritten]
      exact Value.join_absorbs_left formedOld formedNew
  | some v =>
      refine ⟨nofun, ?_, ?_⟩
      · rintro _ ⟨⟩
        rfl
      · simp only [Option.map_some, Option.getD_some, Option.some.injEq, forall_eq']

/-- The old object's undefined is covered where it is written again along with null. A key that is
    written once reads as that value, and one that is not written as it did in both objects. -/
theorem rewritten_covered :
    ((bodyWith (.withProperty .undefined)).Built ∧
      (bodyWith (.withProperty .undefined)).object? firstObject = some (.withProperty .undefined) ∧
      Shape.absentModified.Built) ∧
    ∃ s', ((bodyWith (.withProperty .undefined)).newObject firstObject
        (.ofShape .absentModified)).writeAll firstObject
          [(.name "p", .null), (.name "q", .null),
            (.name "p", Value.undefined.join .null)] = .ok s' ∧
      (s'.readProperty (FinSet.singleton firstObject) (.name "p")).Absorbs .undefined ∧
      s'.readProperty (FinSet.singleton firstObject) (.name "q") = Value.null.joinModified ∧
      s'.readProperty (FinSet.singleton firstObject) (.name "r") = .absentModified := by
  have built := bodyWith_property .undefined
  have held : (bodyWith (.withProperty .undefined)).object? firstObject =
      some (.withProperty .undefined) := rfl
  have fresh : Shape.absentModified.Built := .template .absentModified
  obtain ⟨s', done, reads⟩ := readProperty_after_writes built held
    (o := .ofShape .absentModified) fresh
    [(.name "p", .null), (.name "q", .null), (.name "p", Value.undefined.join .null)]
  refine ⟨⟨built, held, fresh⟩, s', done, ?_, ?_, ?_⟩
  · refine (reads (.name "p")).2.2.mpr ?_
    rintro _ ⟨⟩
    decide
  · exact (reads (.name "q")).2.1 .null rfl
  · exact (reads (.name "r")).1 rfl

/-- The old object had undefined. After a new one is made under the same label and null is written
    to the property, it reads as null alone. -/
theorem summary_overwritten :
    (bodyWith (.withProperty .undefined)).Built ∧
      (bodyWith (.withProperty .undefined)).object? firstObject = some (.withProperty .undefined) ∧
      ∃ s', ((bodyWith (.withProperty .undefined)).newObject firstObject
          (.ofShape .absentModified)).writeProperty (FinSet.singleton firstObject) (.name "p")
            .null = .ok s' ∧
        s'.readProperty (FinSet.singleton firstObject) (.name "p") = Value.null.joinModified ∧
        ¬ (s'.readProperty (FinSet.singleton firstObject) (.name "p")).Absorbs
          ((HeapObject.withProperty .undefined).shape.get (.name "p")) := by
  have held : (bodyWith (.withProperty .undefined)).object? firstObject =
      some (.withProperty .undefined) := rfl
  obtain ⟨s', done, written⟩ := writeProperty_singleton
    (shapes_newObject_of_held held (.ofShape .absentModified)) (.name "p") .null
  refine ⟨bodyWith_property .undefined, held, s', done, ?_⟩
  rw [readProperty_singleton, written]
  decide

end State

end ScriptHeap
