import ScriptHeap.Proofs.State.Agreement

/-!
# What a return restores

Unless it collapses, a shape after a return holds in every slot its own value where that may have
been modified, and otherwise what the caller's shape holds there, without the parts of the callee
(`Shape.getSlot_restore`). This is so for keys that are listed on one side, on both or on neither,
although restored properties that equal their default are no longer listed. It collapses exactly if
some slot would come back as bottom (`Shape.collapses_iff`), and these two cases are all that a
return does (`HeapObject.restore_slotwise`).

So a value that one of two joined branches may have modified is still covered after the return, as
long as the join knows that it may have been modified (`HeapObject.restore_join`). A join with an
unknown value does not: an unknown value absorbs the mark along with everything else, and the
caller's value comes back.
-/

namespace ScriptHeap

namespace Shape

variable {s caller : Shape} {nodes : FinSet Nat}

/-! ### Properties -/

/-- Entries fill the gaps of a map, except under the keys that are left out. -/
theorem get?_foldl_fill (leaveOut : Key → Bool) (f : Value → Value) (entries : List (Key × Value))
    (acc : FinMap Key Value) (key : Key) :
    (entries.foldl
      (fun acc entry =>
        if leaveOut entry.1 || acc.contains entry.1 then acc else acc.insert entry.1 (f entry.2))
      acc).get? key =
      (acc.get? key).or
        (if leaveOut key then Option.none else (Assoc.find? key entries).map f) := by
  induction entries generalizing acc with
  | nil => cases leaveOut key <;> simp [Assoc.find?]
  | cons entry rest ih =>
      obtain ⟨k, v⟩ := entry
      rw [List.foldl_cons, ih]
      by_cases same : key = k
      · subst same
        cases out : leaveOut key with
        | true => simp
        | false =>
            cases held : acc.get? key with
            | none => simp [FinMap.contains, held, Assoc.find?]
            | some w => simp [FinMap.contains, held]
      · have found : Assoc.find? key ((k, v) :: rest) = Assoc.find? key rest := by
          simp [Assoc.find?, same]
        rw [found]
        split
        · rfl
        · rw [FinMap.get?_insert_of_ne _ same]

/-- A property that is listed keeps its own value or gets the caller's. The caller's properties come
    back unless the default they fall under may have been modified. -/
theorem get?_restoredProperties (s caller : Shape) (nodes : FinSet Nat) (key : Key) :
    (s.restoredProperties caller nodes).get? key =
      if s.properties.contains key then some (restored nodes (s.get key) (caller.get key))
      else if (s.default key).maybeModified then Option.none
      else (caller.properties.get? key).map (·.removeParts nodes) := by
  have own : (s.properties.toList.map fun entry =>
        (entry.1, restored nodes entry.2 (caller.get entry.1))) =
      s.properties.keys.map fun key => (key, restored nodes (s.get key) (caller.get key)) := by
    unfold FinMap.keys
    rw [List.map_map]
    refine List.map_congr_left fun entry member => ?_
    have listed : s.get entry.1 = entry.2 := get_of_listed (FinMap.mem_toList_iff.mp member)
    simp [listed]
  have key_listed : key ∈ s.properties.keys ↔ s.properties.contains key = true := by
    rw [FinMap.mem_keys_iff, FinMap.contains_eq_true_iff]
  unfold restoredProperties
  rw [own, get?_foldl_fill (fun key => (s.default key).maybeModified) (·.removeParts nodes),
    FinMap.get?_ofList_map]
  simp only [key_listed]
  split
  · rfl
  · rfl

/-! ### Slots -/

/-- What a return makes of a shape before it is checked, with every property listed. -/
def refilled (s caller : Shape) (nodes : FinSet Nat) : Shape where
  properties := restoredProperties s caller nodes
  defaultNumeric := restored nodes s.defaultNumeric caller.defaultNumeric
  defaultOther := restored nodes s.defaultOther caller.defaultOther
  internalPrototype := restored nodes s.internalPrototype caller.internalPrototype
  internalValue := restored nodes s.internalValue caller.internalValue
  scope := if s.scope.isUnknown then caller.scope else s.scope

/-- The shape without the properties that read as their default. -/
def trimmed (s : Shape) : Shape :=
  { s with properties := s.properties.filter fun key v => v ≠ s.default key }

theorem restore_eq (s caller : Shape) (nodes : FinSet Nat) :
    s.restore caller nodes =
      if (s.refilled caller nodes).trimmed.isSomeNone then none
      else (s.refilled caller nodes).trimmed := rfl

theorem get_trimmed (s : Shape) (key : Key) : s.trimmed.get key = s.get key := by
  have default : s.trimmed.default key = s.default key := rfl
  unfold get
  rw [default]
  unfold trimmed
  rw [FinMap.get?_filter]
  cases listed : s.properties.get? key with
  | none => rfl
  | some v =>
      by_cases same : v = s.default key
      · simp [Option.filter, same]
      · simp [Option.filter, same]

theorem getSlot_trimmed (s : Shape) (slot : Slot) : s.trimmed.getSlot slot = s.getSlot slot := by
  cases slot with
  | property key => exact get_trimmed s key
  | defaultNumeric | defaultOther | internalValue | internalPrototype => rfl

theorem default_refilled (s caller : Shape) (nodes : FinSet Nat) (key : Key) :
    (s.refilled caller nodes).default key =
      restored nodes (s.default key) (caller.default key) := by
  unfold default
  split <;> rfl

theorem get_refilled (s caller : Shape) (nodes : FinSet Nat) (key : Key) :
    (s.refilled caller nodes).get key = restored nodes (s.get key) (caller.get key) := by
  have entries : (s.refilled caller nodes).properties.get? key = _ :=
    get?_restoredProperties s caller nodes key
  cases listed : s.properties.get? key with
  | some v =>
      rw [if_pos (by simp [FinMap.contains, listed])] at entries
      exact get_of_listed entries
  | none =>
      rw [if_neg (by simp [FinMap.contains, listed])] at entries
      rw [get_of_not_listed listed]
      cases modified : (s.default key).maybeModified with
      | true =>
          rw [modified, if_pos rfl] at entries
          rw [get_of_not_listed entries, default_refilled]
          simp [restored, modified]
      | false =>
          rw [modified, if_neg (by simp)] at entries
          cases theirs : caller.properties.get? key with
          | some v =>
              rw [theirs] at entries
              rw [get_of_listed entries, get_of_listed theirs]
              simp [restored, modified]
          | none =>
              rw [theirs] at entries
              rw [get_of_not_listed entries, get_of_not_listed theirs, default_refilled]

/-- What a slot holds after a return, looked at by itself: what it held if that may have been
    modified, and otherwise what it held for the caller, without the parts split off at the
    callee's nodes. -/
def returned (s caller : Shape) (nodes : FinSet Nat) (slot : Slot) : Value :=
  if (s.getSlot slot).maybeModified then s.getSlot slot
  else (caller.getSlot slot).removeParts nodes

theorem getSlot_trimmed_refilled (s caller : Shape) (nodes : FinSet Nat) (slot : Slot) :
    (s.refilled caller nodes).trimmed.getSlot slot = s.returned caller nodes slot := by
  rw [getSlot_trimmed]
  cases slot with
  | property key => exact get_refilled s caller nodes key
  | defaultNumeric | defaultOther | internalValue | internalPrototype => rfl

/-- Unless the shape collapses, every slot is restored by itself. -/
theorem getSlot_restore (kept : s.restore caller nodes ≠ none) (slot : Slot) :
    (s.restore caller nodes).getSlot slot =
      restored nodes (s.getSlot slot) (caller.getSlot slot) := by
  rw [restore_eq] at kept ⊢
  split at kept
  · exact absurd rfl kept
  · rename_i whole
    rw [if_neg whole, getSlot_trimmed_refilled]
    rfl

/-! ### Collapse -/

/-- Some value is bottom exactly if some slot reads as bottom: a key that is not listed reads as
    one of the fixed slots. -/
theorem isSomeNone_iff (s : Shape) :
    s.isSomeNone = true ↔ ∃ slot, (s.getSlot slot).isNone = true := by
  unfold isSomeNone values
  rw [List.any_append, Bool.or_eq_true, List.any_eq_true, List.any_eq_true]
  constructor
  · rintro (⟨v, listed, bottom⟩ | ⟨v, fixed, bottom⟩)
    · obtain ⟨key, found⟩ := FinMap.mem_values_iff.mp listed
      rw [← get_of_listed found] at bottom
      exact ⟨.property key, bottom⟩
    · simp only [fixedSlots, List.mem_cons, List.not_mem_nil, or_false] at fixed
      rcases fixed with rfl | rfl | rfl | rfl
      · exact ⟨.defaultNumeric, bottom⟩
      · exact ⟨.defaultOther, bottom⟩
      · exact ⟨.internalPrototype, bottom⟩
      · exact ⟨.internalValue, bottom⟩
  · rintro ⟨slot, bottom⟩
    cases slot with
    | property key =>
        have bottom : (s.get key).isNone = true := bottom
        cases found : s.properties.get? key with
        | some v =>
            rw [get_of_listed found] at bottom
            exact .inl ⟨v, FinMap.mem_values_iff.mpr ⟨key, found⟩, bottom⟩
        | none =>
            rw [get_of_not_listed found] at bottom
            refine .inr ⟨s.default key, ?_, bottom⟩
            unfold default
            split <;> simp [fixedSlots]
    | defaultNumeric | defaultOther | internalValue | internalPrototype =>
        exact .inr ⟨_, by simp [fixedSlots, getSlot], bottom⟩

/-- A shape collapses exactly if some slot would come back as bottom. -/
theorem collapses_iff (s caller : Shape) (nodes : FinSet Nat) :
    (s.refilled caller nodes).trimmed.isSomeNone = true ↔
      ∃ slot, (s.returned caller nodes slot).isNone = true := by
  simp only [isSomeNone_iff, getSlot_trimmed_refilled]

/-- No property that is left reads as its default. -/
theorem ne_default_of_trimmed {key : Key} {v : Value}
    (listed : s.trimmed.properties.get? key = some v) : v ≠ s.trimmed.default key := by
  unfold trimmed at listed
  rw [FinMap.get?_filter] at listed
  exact of_decide_eq_true (Option.filter_eq_some_iff.mp listed).2

end Shape

/-! ### Objects -/

namespace HeapObject

/-- An object that may be changed collapses on a return if some slot would come back as bottom, the
    keys that are not listed included. Otherwise every slot comes back by itself, no property is
    listed that reads as its default, and the caller's scope is taken over where it is known and the
    callee's is not. -/
theorem restore_slotwise {t : HeapObject} (writable : t.writable = true) (c : HeapObject)
    (nodes : FinSet Nat) :
    ∃ o, t.restore c nodes = .ok o ∧ o.writable = true ∧
      ((∃ slot, (t.shape.returned c.shape nodes slot).isNone = true) → o.shape = .none) ∧
      ((∀ slot, (t.shape.returned c.shape nodes slot).isNone = false) →
        (∀ slot, o.shape.getSlot slot = t.shape.returned c.shape nodes slot) ∧
        (∀ key v, o.shape.properties.get? key = some v → v ≠ o.shape.default key) ∧
        o.shape.scope =
          if t.shape.scope = .unknown ∧ c.shape.scope ≠ .unknown then c.shape.scope
          else t.shape.scope) := by
  have collapses := Shape.collapses_iff t.shape c.shape nodes
  have shape := Shape.restore_eq t.shape c.shape nodes
  refine ⟨_, if_pos writable, writable, fun bottom => ?_, fun filled => ?_⟩
  · show t.shape.restore c.shape nodes = .none
    rw [shape, if_pos (collapses.mpr bottom)]
  · have whole : ¬ (t.shape.refilled c.shape nodes).trimmed.isSomeNone = true := by
      rw [collapses]
      rintro ⟨slot, bottom⟩
      rw [filled slot] at bottom
      cases bottom
    simp only [shape, if_neg whole]
    refine ⟨Shape.getSlot_trimmed_refilled t.shape c.shape nodes,
      fun key v => Shape.ne_default_of_trimmed, ?_⟩
    show (if t.shape.scope.isUnknown then c.shape.scope else t.shape.scope) = _
    cases t.shape.scope with
    | unknown => cases c.shape.scope <;> simp [Scope.isUnknown]
    | known chain => simp [Scope.isUnknown]

/-- The token of a value that was split by its type at a node. -/
def splitToken (node : Nat) (tag : TypeTag) : Token := .type ⟨0, node⟩ node tag

/-- A caller's object with a property that is split at a node of the callee and at one of its own,
    an array index, and a property that reads as its default. -/
def splitCaller : HeapObject :=
  .ofShape (((Shape.absentModified.set (.name "p") (.partitioned
      ((FinMap.empty.insert (splitToken 10 .string) (.ofString "a")).insert (splitToken 2 .number)
        .anyNumber))).set (.name "0") .undefined).set (.name "q") .absentModified)

/-- The same object with a bottom slot. -/
def bottomCaller : HeapObject :=
  .ofShape { splitCaller.shape with internalValue := .none }

/-- A callee's object of which one property and the default of array indices are known. -/
def halfKnown : HeapObject :=
  .ofShape { Shape.unknown.set (.name "m") Value.null.joinModified with
    defaultNumeric := .absentModified }

/-- The callee's part of the split property is gone, the array index is what the callee says of all
    of them, the written property stays, and the one that reads as its default is not listed. With
    the bottom slot everything collapses. -/
theorem halfKnown_returns :
    (∃ o, halfKnown.restore splitCaller (FinSet.singleton 10) = .ok o ∧
      (o.shape.get (.name "p")).tokens = [splitToken 2 .number] ∧
      o.shape.get (.name "0") = .absentModified ∧
      o.shape.get (.name "m") = Value.null.joinModified ∧
      o.shape.properties.contains (.name "q") = false ∧ o.shape.scope = .known .empty) ∧
    ∃ o, halfKnown.restore bottomCaller (FinSet.singleton 10) = .ok o ∧ o.shape = .none := by
  obtain ⟨o, done, _, _, whole⟩ :=
    restore_slotwise (t := halfKnown) rfl splitCaller (FinSet.singleton 10)
  obtain ⟨o', done', _, collapsed, _⟩ :=
    restore_slotwise (t := halfKnown) rfl bottomCaller (FinSet.singleton 10)
  have filled : ∀ slot,
      (halfKnown.shape.returned splitCaller.shape (FinSet.singleton 10) slot).isNone = false := by
    refine fun slot => Bool.eq_false_iff.mpr fun bottom => ?_
    have collapses := (Shape.collapses_iff _ _ _).mpr ⟨slot, bottom⟩
    revert collapses
    decide +kernel
  obtain ⟨slots, trimmed, scope⟩ := whole filled
  have reads : ∀ key, o.shape.get key = _ := fun key => slots (.property key)
  refine ⟨⟨o, done, ?_, ?_, ?_, ?_, ?_⟩, o', done', collapsed ⟨.internalValue, by decide +kernel⟩⟩
  · rw [reads]
    decide +kernel
  · rw [reads]
    decide +kernel
  · rw [reads]
    decide +kernel
  · refine Bool.eq_false_iff.mpr fun listed => ?_
    obtain ⟨v, found⟩ := FinMap.contains_eq_true_iff.mp listed
    apply trimmed _ v found
    have default : o.shape.default (.name "q") = _ := slots .defaultOther
    rw [← Shape.get_of_listed found, reads, default]
    decide +kernel
  · rw [scope]
    decide +kernel

end HeapObject

/-! ### Joins -/

namespace HeapObject

/-- The join of two objects after a return, unless it collapses: where neither branch has an unknown
    value, what one of them may have modified is covered, and where one has, the caller's value
    comes back. -/
theorem restore_join {a b : HeapObject} (formedLeft : a.shape.WellFormed)
    (formedRight : b.shape.WellFormed) (c : HeapObject) (nodes : FinSet Nat) :
    ∃ o, (a.join b).restore c nodes = .ok o ∧ (o.shape ≠ .none → ∀ slot,
      ((a.shape.getSlot slot).isUnknown = false → (b.shape.getSlot slot).isUnknown = false →
        ∀ x, x = a ∨ x = b → (x.shape.getSlot slot).maybeModified = true →
          (o.shape.getSlot slot).Absorbs (x.shape.getSlot slot)) ∧
      ((a.shape.getSlot slot).isUnknown = true ∨ (b.shape.getSlot slot).isUnknown = true →
        o.shape.getSlot slot = (c.shape.getSlot slot).removeParts nodes)) := by
  refine ⟨.ofShape ((a.shape.join b.shape).restore c.shape nodes), rfl, fun kept slot => ?_⟩
  have restores : ((a.shape.join b.shape).restore c.shape nodes).getSlot slot = _ :=
    Shape.getSlot_restore kept slot
  rw [Shape.getSlot_join] at restores
  have formedLeft := formedLeft slot
  have formedRight := formedRight slot
  refine ⟨fun knownLeft knownRight x branch modified => ?_, fun unknown => ?_⟩
  · have flagged : ((a.shape.getSlot slot).join (b.shape.getSlot slot)).maybeModified = true := by
      rw [Value.maybeModified_join formedLeft knownLeft knownRight]
      rcases branch with rfl | rfl <;> simp [modified]
    rw [Shape.restored, if_pos flagged] at restores
    show (Shape.getSlot _ slot).Absorbs _
    rw [ofShape, restores]
    rcases branch with rfl | rfl
    · exact Value.join_absorbs_left formedLeft formedRight
    · exact Value.join_absorbs formedLeft formedRight
  · rw [Value.join_unknown (by simpa using unknown)] at restores
    exact restores

/-- An object with one property. -/
def withProperty (v : Value) : HeapObject :=
  .ofShape (Shape.absentModified.set (.name "p") v)

/-- One branch writes a number, the other leaves the object as it was made: the caller's null does
    not come back. -/
theorem numberWrite_survives :
    ∃ o, ((withProperty Value.anyNumber.joinModified).join (.ofShape .absentModified)).restore
        (withProperty .null) ∅ = .ok o ∧
      o.shape ≠ .none ∧ (o.shape.get (.name "p")).Absorbs Value.anyNumber.joinModified := by
  have formed : (withProperty Value.anyNumber.joinModified).shape.WellFormed :=
    Shape.WellFormed.absentModified.set _ (.ofFlags _)
  obtain ⟨o, done, covers⟩ :=
    restore_join formed Shape.WellFormed.absentModified (withProperty .null) ∅
      (b := .ofShape .absentModified)
  have whole : o.shape ≠ .none := by
    cases done
    decide +kernel
  exact ⟨o, done, whole, (covers whole (.property (.name "p"))).1 (by decide +kernel)
    (by decide +kernel) _ (.inl rfl) (by decide +kernel)⟩

/-- One branch writes a number, the other has an unknown value: afterwards the property is null, as
    it was for the caller. -/
theorem numberWrite_lost :
    ∃ o, ((withProperty Value.anyNumber.joinModified).join (withProperty .unknown)).restore
        (withProperty .null) ∅ = .ok o ∧
      o.shape ≠ .none ∧
      ((withProperty Value.anyNumber.joinModified).shape.get (.name "p")).maybeModified = true ∧
      o.shape.get (.name "p") = .null ∧
      ¬ (o.shape.get (.name "p")).Absorbs
        ((withProperty Value.anyNumber.joinModified).shape.get (.name "p")) :=
  ⟨_, rfl, by decide +kernel⟩

end HeapObject

end ScriptHeap
