import ScriptHeap.HeapObject
import ScriptHeap.Proofs.Lookup

/-!
# Joins of scope chains

Chains are joined level by level, and the longer one goes on alone. That equal chains are taken as
they are makes no difference (`joinLevels_cons`), so the laws of unions carry over to chains of any
lengths. An object that a chain is joined to has grown exactly if its scope is another one
afterwards, and it grows by a chain no more than once (`HeapObject.extendScope_grows_once`).
-/

namespace ScriptHeap

namespace ScopeChain

theorem joinLevels_self (a : List LabelSet) : joinLevels a a = a := by
  cases a <;> simp [joinLevels]

/-- Taking equal lists as they are makes no difference. -/
theorem joinLevels_cons (a b : LabelSet) (left right : List LabelSet) :
    joinLevels (a :: left) (b :: right) = (a ∪ b) :: joinLevels left right := by
  rw [joinLevels]
  split
  · rename_i same
    obtain ⟨rfl, rfl⟩ := List.cons.inj same
    rw [FinSet.union_self, joinLevels_self]
  · rfl

theorem joinLevels_nil (a : List LabelSet) : joinLevels a [] = a := by
  cases a <;> rfl

theorem joinLevels_comm (a b : List LabelSet) : joinLevels a b = joinLevels b a := by
  induction a generalizing b with
  | nil => rw [joinLevels_nil, joinLevels]
  | cons level rest ih =>
      cases b with
      | nil => rfl
      | cons other others => simp [joinLevels_cons, FinSet.union_comm level other, ih others]

theorem joinLevels_assoc (a b c : List LabelSet) :
    joinLevels (joinLevels a b) c = joinLevels a (joinLevels b c) := by
  induction a generalizing b c with
  | nil => rfl
  | cons level rest ih =>
      cases b with
      | nil => rfl
      | cons other others =>
          cases c with
          | nil => simp [joinLevels_nil]
          | cons last lasts => simp [joinLevels_cons, FinSet.union_assoc, ih]

/-- The levels that one list has beyond the end of the other count like all others. -/
theorem mem_joinLevels_iff {label : Label} (a b : List LabelSet) :
    (∃ level ∈ joinLevels a b, label ∈ level) ↔
      (∃ level ∈ a, label ∈ level) ∨ ∃ level ∈ b, label ∈ level := by
  induction a generalizing b with
  | nil => simp [joinLevels]
  | cons level rest ih =>
      cases b with
      | nil => simp [joinLevels_nil]
      | cons other others =>
          rw [joinLevels_cons]
          simp only [List.mem_cons, exists_eq_or_imp, FinSet.mem_union, ih]
          exact or_or_or_comm

theorem join_self (a : ScopeChain) : a.join a = a :=
  congrArg ScopeChain.mk (joinLevels_self a.levels)

theorem join_comm (a b : ScopeChain) : a.join b = b.join a :=
  congrArg ScopeChain.mk (joinLevels_comm a.levels b.levels)

theorem join_assoc (a b c : ScopeChain) : (a.join b).join c = a.join (b.join c) :=
  congrArg ScopeChain.mk (joinLevels_assoc a.levels b.levels c.levels)

theorem join_empty (a : ScopeChain) : a.join empty = a :=
  congrArg ScopeChain.mk (joinLevels_nil a.levels)

theorem join_join_self (a b : ScopeChain) : (a.join b).join b = a.join b := by
  rw [join_assoc, join_self]

theorem mem_labels {chain : ScopeChain} {label : Label} :
    label ∈ chain.labels ↔ ∃ level ∈ chain.levels, label ∈ level := by
  unfold labels
  refine (FinSet.mem_foldl_union (f := fun level => level)).trans ?_
  simp

theorem containsLabel_iff {chain : ScopeChain} {label : Label} :
    chain.containsLabel label = true ↔ label ∈ chain.labels := by
  rw [mem_labels, containsLabel, List.any_eq_true]
  exact Iff.rfl

theorem containsLabel_join {a b : ScopeChain} {label : Label} :
    (a.join b).containsLabel label = true ↔
      a.containsLabel label = true ∨ b.containsLabel label = true := by
  rw [containsLabel_iff, containsLabel_iff, containsLabel_iff, mem_labels, mem_labels, mem_labels]
  exact mem_joinLevels_iff a.levels b.levels

end ScopeChain

namespace HeapObject

/-- The object with another scope. -/
def withChain (o : HeapObject) (chain : ScopeChain) : HeapObject :=
  { o with shape := { o.shape with scope := .known chain } }

theorem withChain_of_known {o : HeapObject} {chain : ScopeChain}
    (known : o.shape.scope = .known chain) : o.withChain chain = o := by
  unfold withChain
  rw [← known]

theorem extendScope_of_known {o : HeapObject} {old : ScopeChain} (writable : o.writable = true)
    (known : o.shape.scope = .known old) (chain : ScopeChain) :
    o.extendScope chain = .ok (old.join chain ≠ old, o.withChain (old.join chain)) := by
  unfold extendScope
  rw [known]
  simp [writable, withChain]

/-- Joins of chains are commutative, associative and idempotent, having no scope is neutral, and a
    join has the labels of both sides. A chain is joined to the known scope of an object that may be
    changed, which says so exactly if the scope is another one afterwards. Joined once more, the
    same chain changes nothing. -/
theorem extendScope_grows_once :
    (∀ a b c : ScopeChain,
      a.join b = b.join a ∧ (a.join b).join c = a.join (b.join c) ∧ a.join a = a ∧
      a.join .empty = a ∧ ScopeChain.empty.join a = a) ∧
    (∀ (a b : ScopeChain) (label : Label), (a.join b).containsLabel label = true ↔
      a.containsLabel label = true ∨ b.containsLabel label = true) ∧
    ∀ (o : HeapObject) (old chain : ScopeChain), o.writable = true → o.shape.scope = .known old →
      ∃ changed o', o.extendScope chain = .ok (changed, o') ∧
        o' = o.withChain (old.join chain) ∧
        (changed = true ↔ o'.shape.scope ≠ o.shape.scope) ∧
        o'.extendScope chain = .ok (false, o') := by
  refine ⟨fun a b c => ⟨a.join_comm b, a.join_assoc b c, a.join_self, a.join_empty, rfl⟩,
    fun a b label => ScopeChain.containsLabel_join, fun o old chain writable known => ?_⟩
  refine ⟨_, _, extendScope_of_known writable known chain, rfl, ?_, ?_⟩
  · rw [known]
    simp [withChain]
  · have again := extendScope_of_known (o := o.withChain (old.join chain)) writable rfl chain
    rw [again, ScopeChain.join_join_self, withChain_of_known rfl]
    simp

/-- The scope of a function that is made in another one. -/
def closureChain : ScopeChain :=
  ⟨[FinSet.singleton ⟨0, .object, none⟩, FinSet.singleton ⟨2, .object, none⟩]⟩

/-- The scope of the same function where the other one is itself made in a third. -/
def nestedChain : ScopeChain :=
  ⟨[FinSet.singleton ⟨0, .object, none⟩, FinSet.singleton ⟨1, .object, none⟩,
    FinSet.singleton ⟨2, .object, none⟩]⟩

/-- The two chains share their first level, differ in the second, and one is longer: the scope grows
    to the longer one with both second levels, and does not grow by the same chain again. -/
theorem closureChain_grows_once :
    ∃ o', ((ofShape .none).withChain closureChain).extendScope nestedChain = .ok (true, o') ∧
      o'.shape.scope = .known ⟨[FinSet.singleton ⟨0, .object, none⟩,
        FinSet.singleton ⟨2, .object, none⟩ ∪ FinSet.singleton ⟨1, .object, none⟩,
        FinSet.singleton ⟨2, .object, none⟩]⟩ ∧
      o'.extendScope nestedChain = .ok (false, o') := by
  obtain ⟨changed, o', done, same, grown, again⟩ := extendScope_grows_once.2.2
    ((ofShape .none).withChain closureChain) closureChain nestedChain rfl rfl
  have joined : o'.shape.scope = .known (closureChain.join nestedChain) := by
    rw [same]
    rfl
  have longer : changed = true := by
    rw [grown, joined]
    decide
  refine ⟨o', longer ▸ done, ?_, again⟩
  rw [joined]
  decide

end HeapObject

end ScriptHeap
