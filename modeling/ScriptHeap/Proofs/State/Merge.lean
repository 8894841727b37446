import ScriptHeap.Proofs.Analysis.Entries

/-!
# Joins of states as least upper bounds

States are joined register by register and object by object. A value or a shape that is the only
one, or the same on both sides, is taken as it is, and otherwise the two are joined. Since the joins
of values and of shapes are commutative and associative, the join of two states is their least upper
bound, and states can be joined into another in any order (`State.join_leastUpperBound`).

Taking equal values as they are is not always joining them: an unknown value that carries flags
beside loses them in a join with itself or with bottom (`State.join_keeps_flagged_unknown`).
-/

namespace ScriptHeap

/-! ### Look-ups -/

namespace Lookup

variable {κ α : Type} [DecidableEq α]

/-- An operation that is commutative and associative, and gives upper bounds. -/
structure Semilattice (op : α → α → α) (formed : α → Prop) : Prop extends UpperBound op formed where
  comm : ∀ {a b}, formed a → formed b → op a b = op b a
  assoc : ∀ {a b c}, formed a → formed b → formed c → op (op a b) c = op a (op b c)

/-- The operation, left out where both sides agree. -/
def merge (op : α → α → α) (a b : α) : α := if a = b then a else op a b

variable {op : α → α → α} {formed : α → Prop}

@[simp] theorem merge_self (a : α) : merge op a a = a := if_pos rfl

theorem merge_of_ne {a b : α} (different : a ≠ b) : merge op a b = op a b := if_neg different

theorem join_apply (f g : Lookup κ α) (key : κ) :
    f.join op g key = (f key).merge (merge op) (g key) := by
  unfold join merge
  cases f key <;> cases g key <;> rfl

theorem covers_iff_merge {f g : Lookup κ α} :
    f.Covers op g ↔ ∀ key b, g key = some b → ∃ a, f key = some a ∧ merge op a b = a := by
  unfold Covers merge
  constructor
  · intro covers key b found
    obtain ⟨a, own, same⟩ := covers key b found
    refine ⟨a, own, ?_⟩
    by_cases equal : a = b
    · simp [equal]
    · simpa [equal] using same
  · intro covers key b found
    obtain ⟨a, own, same⟩ := covers key b found
    refine ⟨a, own, ?_⟩
    by_cases equal : a = b
    · exact .inl equal
    · exact .inr (by simpa [equal] using same)

namespace Semilattice

variable (laws : Semilattice op formed)

include laws

omit [DecidableEq α] in
theorem idempotent_op {a b : α} (left : formed a) (right : formed b) :
    op (op a b) (op a b) = op a b := by
  rw [← laws.assoc (laws.formed_op left right) left right, laws.absorbs_left left right,
    laws.absorbs_right left right]

theorem merge_comm {a b : α} (left : formed a) (right : formed b) :
    merge op a b = merge op b a := by
  by_cases equal : a = b
  · simp [equal]
  · rw [merge_of_ne equal, merge_of_ne (Ne.symm equal), laws.comm left right]

/-- What is joined to one of its own upper bounds leaves it alone. -/
theorem merge_op_right {a b : α} (left : formed a) (right : formed b) :
    merge op (op a b) b = op a b := by
  unfold merge
  split
  · rfl
  · exact laws.absorbs_right left right

/-- A join of two makes no difference between being left out and being made once more. -/
theorem merge_op {a b c : α} (first : formed a) (second : formed b) :
    merge op (op a b) c = op (op a b) c := by
  unfold merge
  split
  · rename_i equal
    rw [← equal, laws.idempotent_op first second]
  · rfl

theorem merge_assoc {a b c : α} (first : formed a) (second : formed b) (third : formed c) :
    merge op (merge op a b) c = merge op a (merge op b c) := by
  by_cases left : a = b
  · subst left
    by_cases right : a = c
    · simp [right]
    · have again : merge op a (op a c) = op a c := by
        rw [laws.merge_comm first (laws.formed_op first third), laws.comm first third,
          laws.merge_op_right third first]
      rw [merge_self, merge_of_ne right, again]
  · by_cases right : b = c
    · subst right
      rw [merge_self, merge_of_ne left, laws.merge_op_right first second]
    · have bc := laws.formed_op second third
      rw [merge_of_ne left, merge_of_ne right, laws.merge_op first second,
        laws.merge_comm first bc, laws.merge_op second third, laws.assoc first second third,
        laws.comm first bc]

theorem merge_right_comm {a b c : α} (first : formed a) (second : formed b) (third : formed c) :
    merge op (merge op a b) c = merge op (merge op a c) b := by
  rw [laws.merge_assoc first second third, laws.merge_comm second third,
    laws.merge_assoc first third second]

theorem join_right_comm {f g h : Lookup κ α} (first : f.All formed) (second : g.All formed)
    (third : h.All formed) : (f.join op g).join op h = (f.join op h).join op g := by
  funext key
  simp only [join_apply]
  cases own : f key with
  | none =>
      cases left : g key with
      | none => cases h key <;> rfl
      | some b =>
          cases right : h key with
          | none => rfl
          | some c => simp [laws.merge_comm (second key b left) (third key c right)]
  | some a =>
      cases left : g key with
      | none => cases h key <;> rfl
      | some b =>
          cases right : h key with
          | none => rfl
          | some c =>
              simp [laws.merge_right_comm (first key a own) (second key b left) (third key c right)]

/-- What covers two look-ups covers their join. -/
theorem covers_join {f g h : Lookup κ α} (first : f.All formed) (second : g.All formed)
    (third : h.All formed) (left : f.Covers op g) (right : f.Covers op h) :
    f.Covers op (g.join op h) := by
  rw [covers_iff_merge] at left right ⊢
  intro key d found
  rw [join_apply] at found
  cases foundLeft : g key with
  | none =>
      rw [foundLeft] at found
      exact right key d (by simpa using found)
  | some b =>
      obtain ⟨a, own, absorbsLeft⟩ := left key b foundLeft
      cases foundRight : h key with
      | none =>
          obtain rfl : b = d := by simpa [foundLeft, foundRight] using found
          exact ⟨a, own, absorbsLeft⟩
      | some c =>
          obtain rfl : merge op b c = d := by simpa [foundLeft, foundRight] using found
          obtain ⟨a', own', absorbsRight⟩ := right key c foundRight
          obtain rfl : a' = a := Option.some.inj (own'.symm.trans own)
          refine ⟨a', own, ?_⟩
          rw [← laws.merge_assoc (first key a' own) (second key b foundLeft)
            (third key c foundRight), absorbsLeft, absorbsRight]

end Semilattice

end Lookup

theorem Value.join_semilatticeOp : Lookup.Semilattice Value.join Value.WellFormed where
  toUpperBound := join_upperBound
  comm := fun left right => join_comm left right
  assoc := fun first second third => join_assoc first second third

theorem Shape.join_semilatticeOp : Lookup.Semilattice Shape.join Shape.WellFormed where
  toUpperBound := join_upperBound
  comm := join_comm
  assoc := join_assoc

/-! ### States -/

namespace State

/-- Every register and every slot holds a value that can be built. -/
structure Built (s : State) : Prop where
  registers : Lookup.All Value.Built s.registers.get?
  shapes : Lookup.All (fun shape => ∀ slot, (shape.getSlot slot).Built) s.shapes

theorem Built.wellFormed {s : State} (built : s.Built) : s.WellFormed where
  registers := fun r v found => (built.registers r v found).wellFormed
  shapes := fun label shape found slot => (built.shapes label shape found slot).wellFormed

/-- Both states have the same registers, equal objects and the same facts. Who holds the objects
    makes no difference. -/
structure Alike (s t : State) : Prop where
  registers : s.registers = t.registers
  shapes : s.shapes = t.shapes
  mustDefs : s.mustDefs = t.mustDefs
  mustEquals : s.mustEquals = t.mustEquals

theorem Alike.refl (s : State) : s.Alike s := ⟨rfl, rfl, rfl, rfl⟩

theorem Alike.trans {s t u : State} (first : s.Alike t) (second : t.Alike u) : s.Alike u where
  registers := first.registers.trans second.registers
  shapes := first.shapes.trans second.shapes
  mustDefs := first.mustDefs.trans second.mustDefs
  mustEquals := first.mustEquals.trans second.mustEquals

theorem agreeing_right_comm {ν : Type} [DecidableEq ν] (m n o : FinMap Register ν) :
    agreeing (agreeing m n) o = agreeing (agreeing m o) n := by
  apply FinMap.ext
  intro r
  apply Option.ext
  intro v
  simp only [get?_agreeing]
  exact and_right_comm

theorem mustDefs_join (s t : State) : (s.join t).2.mustDefs = agreeing s.mustDefs t.mustDefs := by
  rw [join_eq]

theorem mustEquals_join (s t : State) :
    (s.join t).2.mustEquals = agreeing s.mustEquals t.mustEquals := by
  rw [join_eq]

theorem Alike.join {s t : State} (alike : s.Alike t) (u : State) :
    (s.join u).2.Alike (t.join u).2 where
  registers := FinMap.ext fun r => by rw [registers_join, registers_join, alike.registers]
  shapes := by rw [shapes_join, shapes_join, alike.shapes]
  mustDefs := by rw [mustDefs_join, mustDefs_join, alike.mustDefs]
  mustEquals := by rw [mustEquals_join, mustEquals_join, alike.mustEquals]

theorem join_right_comm {s t u : State} (first : s.WellFormed) (second : t.WellFormed)
    (third : u.WellFormed) : ((s.join t).2.join u).2.Alike ((s.join u).2.join t).2 where
  registers := FinMap.ext fun r => by
    simp only [registers_join]
    rw [Value.join_semilatticeOp.join_right_comm first.registers second.registers third.registers]
  shapes := by
    simp only [shapes_join]
    exact Shape.join_semilatticeOp.join_right_comm first.shapes second.shapes third.shapes
  mustDefs := by simp only [mustDefs_join, agreeing_right_comm]
  mustEquals := by simp only [mustEquals_join, agreeing_right_comm]

/-- Join states into a state, one after the other. -/
def joinAll (s : State) (states : List State) : State :=
  states.foldl (fun s t => (s.join t).2) s

theorem Alike.joinAll {s t : State} (alike : s.Alike t) (states : List State) :
    (s.joinAll states).Alike (t.joinAll states) := by
  induction states generalizing s t with
  | nil => exact alike
  | cons u rest ih => exact ih (alike.join u)

/-- The order in which states are joined makes no difference. -/
theorem joinAll_perm {states others : List State} (perm : states.Perm others) {s : State}
    (formed : s.WellFormed) (each : ∀ t ∈ states, t.WellFormed) :
    (s.joinAll states).Alike (s.joinAll others) := by
  induction perm generalizing s with
  | nil => exact .refl s
  | cons t _ ih =>
      apply ih (formed.join (each t List.mem_cons_self))
      intro u member
      exact each u (List.mem_cons_of_mem _ member)
  | swap t u rest =>
      have second := each u List.mem_cons_self
      have third := each t (List.mem_cons_of_mem _ List.mem_cons_self)
      exact (join_right_comm formed second third).joinAll rest
  | trans first _ ihFirst ihSecond =>
      apply (ihFirst formed each).trans
      apply ihSecond formed
      intro u member
      exact each u (first.mem_iff.mpr member)

theorem covers_join_left {s t : State} (formed : s.WellFormed) (formedOther : t.WellFormed) :
    (s.join t).2.Covers s := by
  have own : s.Covers s := ⟨fun _ v found => ⟨v, found, .inl rfl⟩,
    fun _ shape found => ⟨shape, found, .inl rfl⟩⟩
  exact own.join formed formed formedOther

/-- What covers two states covers their join. -/
theorem Covers.of_both {s t u : State} (formed : u.WellFormed) (first : s.WellFormed)
    (second : t.WellFormed) (left : u.Covers s) (right : u.Covers t) : u.Covers (s.join t).2 where
  registers := by
    rw [registers_join]
    exact Value.join_semilatticeOp.covers_join formed.registers first.registers second.registers
      left.registers right.registers
  shapes := by
    rw [shapes_join]
    exact Shape.join_semilatticeOp.covers_join formed.shapes first.shapes second.shapes
      left.shapes right.shapes

/-- A join changes a register or an object exactly where it does not cover the other state. -/
theorem covers_iff_join_eq {s t : State} :
    s.Covers t ↔ (s.join t).2.registers = s.registers ∧ (s.join t).2.shapes = s.shapes := by
  constructor
  · intro covered
    obtain ⟨registers, heap⟩ := covered.join_eq
    refine ⟨registers, ?_⟩
    unfold shapes object?
    rw [heap]
  · rintro ⟨registers, shapes⟩
    have sameRegisters := congrArg FinMap.get? registers
    rw [registers_join] at sameRegisters
    rw [shapes_join] at shapes
    constructor
    · rw [Lookup.covers_iff_merge]
      intro r v found
      have same := congrFun sameRegisters r
      rw [Lookup.join_apply, found] at same
      cases own : s.registers.get? r with
      | none => simp [own] at same
      | some a => exact ⟨a, rfl, by simpa [own] using same⟩
    · rw [Lookup.covers_iff_merge]
      intro label shape found
      have same := congrFun shapes label
      rw [Lookup.join_apply, found] at same
      cases own : s.shapes label with
      | none => simp [own] at same
      | some a => exact ⟨a, rfl, by simpa [own] using same⟩

/-- A register of a join holds the join of what the two states hold, a missing value counting as
    bottom, exactly if that is known or the bare unknown value. -/
theorem register_join_iff {s t : State} (formed : s.WellFormed) (formedOther : t.WellFormed)
    {r : Register} {v : Value} (found : (s.join t).2.registers.get? r = some v) :
    v = ((s.registers.get? r).getD .none).join ((t.registers.get? r).getD .none) ↔
      v.isUnknown = false ∨ v = .unknown := by
  have bottom : Value.none.WellFormed := .ofFlags {}
  rw [registers_join, Lookup.join_apply] at found
  cases left : s.registers.get? r with
  | none =>
      cases right : t.registers.get? r with
      | none => simp [left, right] at found
      | some b =>
          obtain rfl : b = v := by simpa [left, right] using found
          have formedRight := formedOther.registers r b right
          rw [← Value.join_none_iff formedRight, ← Value.join_comm bottom formedRight]
          exact eq_comm
  | some a =>
      have formedLeft := formed.registers r a left
      cases right : t.registers.get? r with
      | none =>
          obtain rfl : a = v := by simpa [left, right] using found
          rw [← Value.join_none_iff formedLeft]
          exact eq_comm
      | some b =>
          have formedRight := formedOther.registers r b right
          obtain rfl : Lookup.merge Value.join a b = v := by simpa [left, right] using found
          by_cases same : a = b
          · rw [same, Lookup.merge_self, ← Value.join_self_iff]
            exact eq_comm
          · rw [Lookup.merge_of_ne same, ← Value.join_self_iff]
            simp [Value.join_semilatticeOp.idempotent_op formedLeft formedRight]

/-- What the join of two states is, and whether it differs from the first. -/
structure JoinOf (s t : State) (changed : Bool) (joined : State) : Prop where
  /-- Values that differ are joined; the only value, or the one that both have, stays. -/
  registers : joined.registers.get? = Lookup.join Value.join s.registers.get? t.registers.get?
  /-- This is the join of both values, a missing one counting as bottom, exactly if it is known or
      the plain unknown value. An unknown value that carries flags or parts beside is kept. -/
  register_eq_iff : ∀ r v, joined.registers.get? r = some v →
    (v = ((s.registers.get? r).getD .none).join ((t.registers.get? r).getD .none) ↔
      v.isUnknown = false ∨ v = .unknown)
  /-- Shapes that differ are joined; the only shape, or the one that both have, stays. -/
  shapes : joined.shapes = Lookup.join Shape.join s.shapes t.shapes
  mustDefs : ∀ r node, joined.mustDefs.get? r = some node ↔
    s.mustDefs.get? r = some node ∧ t.mustDefs.get? r = some node
  mustEquals : ∀ r property, joined.mustEquals.get? r = some property ↔
    s.mustEquals.get? r = some property ∧ t.mustEquals.get? r = some property
  changed : changed = true ↔ joined.registers ≠ s.registers ∨ joined.shapes ≠ s.shapes
  /-- Joining either state once more changes nothing. -/
  upper : (joined.join s).1 = false ∧ (joined.join t).1 = false
  /-- Nor does joining the join to a state that neither changes. -/
  least : ∀ u : State, u.Built → (u.join s).1 = false → (u.join t).1 = false →
    (u.join joined).1 = false

/-- The join of two states is their least upper bound, register by register and object by object,
    and states can be joined into a state in any order. -/
theorem join_leastUpperBound {s t : State} (built : s.Built) (builtOther : t.Built) :
    JoinOf s t (s.join t).1 (s.join t).2 ∧
      ∀ states others : List State, (∀ u ∈ states, u.Built) → states.Perm others →
        (s.joinAll states).Alike (s.joinAll others) := by
  have formed := built.wellFormed
  have formedOther := builtOther.wellFormed
  refine ⟨⟨registers_join s t, ?_, shapes_join s t, ?_, ?_, ?_, ⟨?_, ?_⟩, ?_⟩, ?_⟩
  · intro r v found
    exact register_join_iff formed formedOther found
  · intro r node
    rw [mustDefs_join, get?_agreeing]
  · intro r property
    rw [mustEquals_join, get?_agreeing]
  · rw [← Classical.not_and_iff_not_or_not, ← covers_iff_join_eq, ← join_changes_iff, Bool.not_eq_false]
  · exact join_changes_iff.mpr (covers_join_left formed formedOther)
  · exact join_changes_iff.mpr (covers_join_right formed formedOther)
  · intro u builtUpper left right
    rw [join_changes_iff] at left right ⊢
    exact left.of_both builtUpper.wellFormed formed formedOther right
  · intro states others each perm
    exact joinAll_perm perm formed fun u member => (each u member).wellFormed

/-! ### Unknown values with flags -/

theorem initial_built (t : Interner) (function : Nat) (context : CallString)
    (copyOnWriteDisabled : Bool) : (initial t function context copyOnWriteDisabled).1.Built where
  registers := by
    intro r v found
    cases found
  shapes := by
    intro label shape found
    obtain ⟨object, foundObject, rfl⟩ := Option.map_eq_some_iff.mp found
    obtain ⟨cell, foundCell, rfl⟩ := Option.map_eq_some_iff.mp foundObject
    obtain ⟨rfl⟩ := List.mem_singleton.mp (FinMap.mem_toList_iff.mpr foundCell)
    intro slot
    cases slot with
    | property key =>
        show (Shape.absentModified.default key).Built
        unfold Shape.default
        split <;> exact .absentModified
    | _ => exact .absentModified

theorem Built.writeRegister {s : State} (built : s.Built) (r : Register) {v : Value}
    (builtValue : v.Built) : (s.writeRegister r v).Built where
  registers := by
    intro other w found
    have written : (s.registers.insert r v).get? other = some w := found
    rw [FinMap.get?_insert] at written
    split at written
    · cases written
      exact builtValue
    · exact built.registers other w written
  shapes := built.shapes

/-- An unknown value of a slot that may have been modified. -/
def flaggedUnknown : Value := Value.unknown.joinModified

/-- A state at the start of a program body that holds a flagged unknown value. -/
def flaggedState : State :=
  (initial .initial 0 .main false).1.writeRegister 0 flaggedUnknown

/-- The same state with the value in a second register. -/
def flaggedTwice : State := flaggedState.writeRegister 1 flaggedUnknown

/-- A flagged unknown value that both states have, or only one, stays as it is, but the join of it
    with itself or with bottom is the bare unknown value. -/
theorem join_keeps_flagged_unknown :
    (flaggedState.join flaggedTwice).2.registers.get? 0 ≠
        some (flaggedUnknown.join flaggedUnknown) ∧
      (flaggedState.join flaggedTwice).2.registers.get? 1 ≠
        some (Value.none.join flaggedUnknown) := by
  decide

theorem flagged_leastUpperBound :
    (flaggedState.Built ∧ flaggedTwice.Built ∧ (initial .initial 0 .main true).1.Built) ∧
      JoinOf flaggedState flaggedTwice true (flaggedState.join flaggedTwice).2 ∧
      (flaggedState.joinAll [(initial .initial 0 .main true).1, flaggedTwice]).Alike
        (flaggedState.joinAll [flaggedTwice, (initial .initial 0 .main true).1]) := by
  have unknownBuilt : flaggedUnknown.Built := .joinModified .unknown
  have built : flaggedState.Built := (initial_built _ _ _ _).writeRegister 0 unknownBuilt
  have builtOther : flaggedTwice.Built := built.writeRegister 1 unknownBuilt
  have builtEmpty : (initial .initial 0 .main true).1.Built := initial_built _ _ _ _
  have changed : (flaggedState.join flaggedTwice).1 = true := by decide
  obtain ⟨joined, anyOrder⟩ := join_leastUpperBound built builtOther
  rw [changed] at joined
  refine ⟨⟨built, builtOther, builtEmpty⟩, joined, anyOrder _ _ ?_ (.swap _ _ [])⟩
  simp [builtOther, builtEmpty]

end State

end ScriptHeap
