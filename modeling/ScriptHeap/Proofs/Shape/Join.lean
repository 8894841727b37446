import ScriptHeap.Proofs.ScopeChain
import ScriptHeap.Proofs.Value.Semilattice

/-!
# Joins of shapes as upper bounds

Shapes are joined slot by slot, so the two laws of the join of values carry over: a join absorbs
both of its operands (`join_absorbs`, `join_absorbs_left`), and what a shape absorbs, each join of
it absorbs (`Absorbs.join`). The join of well-formed shapes is commutative and associative.
-/

namespace ScriptHeap

/-! ### Scopes -/

namespace Scope

theorem join_self (a : Scope) : a.join a = a := by
  cases a with
  | unknown => rfl
  | known chain => simp [join, ScopeChain.join_self]

theorem join_comm (a b : Scope) : a.join b = b.join a := by
  cases a <;> cases b <;> simp [join, ScopeChain.join_comm]

theorem join_assoc (a b c : Scope) : (a.join b).join c = a.join (b.join c) := by
  cases a <;> cases b <;> cases c <;> simp [join, ScopeChain.join_assoc]

theorem join_absorbs (a b : Scope) : (a.join b).join b = a.join b := by
  rw [join_assoc, join_self]

theorem join_still_absorbs {a b : Scope} (c : Scope) (absorbed : a.join b = a) :
    (a.join c).join b = a.join c := by
  rw [join_assoc, join_comm c b, ← join_assoc, absorbed]

end Scope

/-! ### Shapes -/

namespace Shape

/-- Every slot holds a well-formed value. -/
def WellFormed (s : Shape) : Prop := ∀ slot, (s.getSlot slot).WellFormed

/-- Joining the second shape to the first changes nothing. -/
def Absorbs (a b : Shape) : Prop := a.join b = a

instance (a b : Shape) : Decidable (a.Absorbs b) := inferInstanceAs (Decidable (a.join b = a))

theorem get_of_listed {s : Shape} {key : Key} {v : Value}
    (found : s.properties.get? key = some v) : s.get key = v := by
  simp [get, found]

theorem get_of_not_listed {s : Shape} {key : Key} (missing : s.properties.get? key = Option.none) :
    s.get key = s.default key := by
  simp [get, missing]

theorem mem_commonKeys {a b : Shape} {key : Key} :
    key ∈ commonKeys a b ↔
      a.properties.contains key = true ∨ b.properties.contains key = true := by
  unfold commonKeys
  rw [FinSet.mem_toList, FinSet.mem_ofList, List.mem_append, FinMap.mem_keys_iff,
    FinMap.mem_keys_iff, FinMap.contains_eq_true_iff, FinMap.contains_eq_true_iff]

theorem get?_join (a b : Shape) (key : Key) :
    (a.join b).properties.get? key =
      if key ∈ commonKeys a b then some ((a.get key).join (b.get key)) else Option.none :=
  FinMap.get?_ofList_map (fun key => (a.get key).join (b.get key)) (commonKeys a b) key

theorem contains_join (a b : Shape) (key : Key) :
    (a.join b).properties.contains key = true ↔
      a.properties.contains key = true ∨ b.properties.contains key = true := by
  rw [← mem_commonKeys, FinMap.contains, get?_join]
  split <;> simp_all

theorem default_join (a b : Shape) (key : Key) :
    (a.join b).default key = (a.default key).join (b.default key) := by
  unfold default
  split <;> rfl

/-- If two shapes are combined under the keys that either lists, and so are their defaults, then
    they are combined under every key. -/
theorem get_of_commonKeys {a b s : Shape} {f : Value → Value → Value} {key : Key}
    (properties : s.properties.get? key =
      if key ∈ commonKeys a b then some (f (a.get key) (b.get key)) else Option.none)
    (default : s.default key = f (a.default key) (b.default key)) :
    s.get key = f (a.get key) (b.get key) := by
  by_cases common : key ∈ commonKeys a b
  · exact get_of_listed (by rw [properties, if_pos common])
  · have listed := mt mem_commonKeys.mpr common
    simp only [FinMap.contains, not_or, Option.not_isSome_iff_eq_none] at listed
    rw [get_of_not_listed (by rw [properties, if_neg common]), get_of_not_listed listed.1,
      get_of_not_listed listed.2, default]

/-- A key of a join reads as the join of what it reads as on both sides. -/
theorem get_join (a b : Shape) (key : Key) :
    (a.join b).get key = (a.get key).join (b.get key) :=
  get_of_commonKeys (get?_join a b key) (default_join a b key)

/-- A slot of a join holds the join of what it holds on both sides. -/
theorem getSlot_join (a b : Shape) (slot : Slot) :
    (a.join b).getSlot slot = (a.getSlot slot).join (b.getSlot slot) := by
  cases slot with
  | property key => exact get_join a b key
  | defaultNumeric | defaultOther | internalValue | internalPrototype => rfl

theorem WellFormed.join {a b : Shape} (formedLeft : a.WellFormed) (formedRight : b.WellFormed) :
    (a.join b).WellFormed := by
  intro slot
  rw [getSlot_join]
  exact (formedLeft slot).join (formedRight slot)

/-- Slots, listed keys and the scope determine a shape. -/
theorem ext_slots {a b : Shape}
    (listed : ∀ key, a.properties.contains key = true ↔ b.properties.contains key = true)
    (slots : ∀ slot, a.getSlot slot = b.getSlot slot) (scope : a.scope = b.scope) : a = b := by
  have properties : a.properties = b.properties := by
    apply FinMap.ext
    intro key
    have same : a.get key = b.get key := slots (.property key)
    have both := listed key
    unfold FinMap.contains at both
    cases foundLeft : a.properties.get? key with
    | none =>
        cases foundRight : b.properties.get? key with
        | none => rfl
        | some w => simp [foundLeft, foundRight] at both
    | some v =>
        cases foundRight : b.properties.get? key with
        | none => simp [foundLeft, foundRight] at both
        | some w => rw [← get_of_listed foundLeft, ← get_of_listed foundRight, same]
  have numeric := slots .defaultNumeric
  have other := slots .defaultOther
  have value := slots .internalValue
  have prototype := slots .internalPrototype
  cases a
  cases b
  simp_all [getSlot]

/-- Absorption of shapes, slot by slot. -/
theorem absorbs_iff {a b : Shape} :
    a.Absorbs b ↔
      (∀ key, b.properties.contains key = true → a.properties.contains key = true) ∧
      (∀ slot, (a.getSlot slot).Absorbs (b.getSlot slot)) ∧ a.scope.join b.scope = a.scope := by
  constructor
  · intro absorbed
    refine ⟨?_, ?_, congrArg Shape.scope absorbed⟩
    · intro key listed
      have joined := (contains_join a b key).mpr (.inr listed)
      rwa [absorbed] at joined
    · intro slot
      have joined := getSlot_join a b slot
      rw [absorbed] at joined
      exact joined.symm
  · rintro ⟨listed, slots, scope⟩
    apply ext_slots
    · intro key
      rw [contains_join]
      exact ⟨fun either => either.elim id (listed key), .inl⟩
    · intro slot
      rw [getSlot_join]
      exact slots slot
    · exact scope

/-- A join absorbs its right operand. -/
theorem join_absorbs {a b : Shape} (formedLeft : a.WellFormed) (formedRight : b.WellFormed) :
    (a.join b).Absorbs b := by
  refine absorbs_iff.mpr ⟨?_, ?_, Scope.join_absorbs a.scope b.scope⟩
  · intro key listed
    exact (contains_join a b key).mpr (.inr listed)
  · intro slot
    rw [getSlot_join]
    exact Value.join_absorbs (formedLeft slot) (formedRight slot)

/-- What a shape absorbs, each join of it absorbs. -/
theorem Absorbs.join {a b c : Shape} (formedLeft : a.WellFormed) (formedRight : b.WellFormed)
    (formedOther : c.WellFormed) (absorbed : a.Absorbs b) : (a.join c).Absorbs b := by
  obtain ⟨listed, slots, scope⟩ := absorbs_iff.mp absorbed
  refine absorbs_iff.mpr ⟨?_, ?_, Scope.join_still_absorbs c.scope scope⟩
  · intro key found
    exact (contains_join a c key).mpr (.inl (listed key found))
  · intro slot
    rw [getSlot_join]
    exact Value.Absorbs.join (formedLeft slot) (formedRight slot) (formedOther slot) (slots slot)

/-- A join absorbs its left operand. -/
theorem join_absorbs_left {a b : Shape} (formedLeft : a.WellFormed) (formedRight : b.WellFormed) :
    (a.join b).Absorbs a := by
  refine absorbs_iff.mpr ⟨?_, ?_, Scope.join_still_absorbs b.scope (Scope.join_self a.scope)⟩
  · intro key listed
    exact (contains_join a b key).mpr (.inl listed)
  · intro slot
    rw [getSlot_join]
    exact Value.join_absorbs_left (formedLeft slot) (formedRight slot)

/-- The join of well-formed shapes is commutative. -/
theorem join_comm {a b : Shape} (formedLeft : a.WellFormed) (formedRight : b.WellFormed) :
    a.join b = b.join a := by
  apply ext_slots
  · intro key
    rw [contains_join, contains_join, or_comm]
  · intro slot
    rw [getSlot_join, getSlot_join, Value.join_comm (formedLeft slot) (formedRight slot)]
  · exact Scope.join_comm a.scope b.scope

/-- The join of well-formed shapes is associative. A key that is listed on one side only is joined
    with the defaults of the others, whichever of them are joined first. -/
theorem join_assoc {a b c : Shape} (formedFirst : a.WellFormed) (formedSecond : b.WellFormed)
    (formedThird : c.WellFormed) : (a.join b).join c = a.join (b.join c) := by
  apply ext_slots
  · intro key
    simp only [contains_join, or_assoc]
  · intro slot
    simp only [getSlot_join,
      Value.join_assoc (formedFirst slot) (formedSecond slot) (formedThird slot)]
  · exact Scope.join_assoc a.scope b.scope c.scope

end Shape

end ScriptHeap
