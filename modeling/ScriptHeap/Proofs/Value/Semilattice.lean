import ScriptHeap.Proofs.Value.Built

/-!
# The join of values as a semilattice operation

The join of well-formed values is commutative and associative (`join_comm`, `join_assoc`). A value
is idempotent, and bottom is neutral for it, exactly if it is known or is the unknown value itself:
an unknown value that carries flags beside is replaced by the bare one in every join.

The parts of a join need the most care, since they are dropped, kept or joined depending on whether
the other side is split and whether it is bottom. Three cases tell this apart (`Splitting`), and on
them the join is one operation with a neutral and an absorbing element (`splitting_join`).
-/

namespace ScriptHeap

/-! ### Strings -/

namespace Value

theorem joinStrings_comm (p q : Bool) (s t : Option String) :
    joinStrings (p || q) s t = joinStrings (q || p) t s := by
  unfold joinStrings
  cases p <;> cases q <;> cases s <;> cases t <;> grind

theorem joinStrings_assoc (p q r : Bool) (s t u : Option String) :
    joinStrings ((joinStrings (p || q) s t).1 || r) (joinStrings (p || q) s t).2 u =
      joinStrings (p || (joinStrings (q || r) t u).1) s (joinStrings (q || r) t u).2 := by
  unfold joinStrings
  cases p <;> cases q <;> cases r <;> cases s <;> cases t <;> cases u <;> grind

end Value

/-! ### Splittings -/

/-- How a known value is split. -/
inductive Splitting where
  /-- The value is bottom and not split. -/
  | bottom
  /-- The value is not split. -/
  | whole
  /-- The value is split into parts. -/
  | split (parts : List (Token × Value))

namespace Splitting

/-- The parts of a splitting. -/
def parts : Splitting → List (Token × Value)
  | .split parts => parts
  | .bottom | .whole => []

/-- How the join of two values is split. -/
def join : Splitting → Splitting → Splitting
  | .bottom, other => other
  | other, .bottom => other
  | .split p, .split q => .split (Value.joinParts p q)
  | _, _ => .whole

theorem join_comm {a b : Splitting}
    (parts : Value.joinParts a.parts b.parts = Value.joinParts b.parts a.parts) :
    a.join b = b.join a := by
  cases a <;> cases b <;> simp_all [join, Splitting.parts]

theorem join_assoc {a b c : Splitting}
    (parts : Value.joinParts (Value.joinParts a.parts b.parts) c.parts =
      Value.joinParts a.parts (Value.joinParts b.parts c.parts)) :
    (a.join b).join c = a.join (b.join c) := by
  cases a <;> cases b <;> cases c <;> simp_all [join, Splitting.parts]

end Splitting

namespace Value

/-- How a value is split. -/
def splitting (v : Value) : Splitting :=
  if v.parts.isEmpty then if v.isNone then .bottom else .whole else .split v.parts

theorem parts_splitting (v : Value) : v.splitting.parts = v.parts := by
  unfold splitting
  by_cases unsplit : v.parts = []
  · by_cases bottom : v.isNone = true <;> simp [unsplit, bottom, Splitting.parts]
  · simp [unsplit, Splitting.parts]

theorem joinedParts_eq (a b : Value) :
    joinedParts a b = (a.splitting.join b.splitting).parts := by
  unfold joinedParts splitting
  by_cases left : a.parts = []
  · by_cases right : b.parts = []
    · by_cases bottom : a.isNone = true <;> by_cases other : b.isNone = true <;>
        simp [left, right, bottom, other, Splitting.join, Splitting.parts]
    · by_cases bottom : a.isNone = true <;>
        simp [left, right, bottom, Splitting.join, Splitting.parts]
  · by_cases right : b.parts = []
    · by_cases other : b.isNone = true <;>
        simp [left, right, other, Splitting.join, Splitting.parts]
    · simp [left, right, Splitting.join, Splitting.parts]

/-- A join is split as the splittings of its sides say. -/
theorem splitting_join {a b : Value} (formed : a.WellFormed) (knownLeft : a.isUnknown = false)
    (knownRight : b.isUnknown = false) :
    (a.join b).splitting = a.splitting.join b.splitting := by
  have bottom := isNone_join formed knownLeft knownRight
  have parts : (a.join b).parts = joinedParts a b := by rw [join_eq formed knownLeft knownRight]
  unfold joinedParts at parts
  unfold splitting
  by_cases left : a.parts = []
  · by_cases right : b.parts = []
    · by_cases none : a.isNone = true <;> by_cases other : b.isNone = true <;>
        simp_all [Splitting.join]
    · by_cases none : a.isNone = true <;> simp_all [Splitting.join]
  · by_cases right : b.parts = []
    · by_cases other : b.isNone = true <;> simp_all [Splitting.join]
    · have filled : (joinParts a.parts b.parts).isEmpty = false :=
        joinParts_isEmpty (by simpa using left)
      simp_all [Splitting.join]

/-! ### Parts -/

theorem joinParts_comm {p q : List (Token × Value)} (sortedLeft : Assoc.Sorted p)
    (sortedRight : Assoc.Sorted q)
    (each : ∀ token v w, Assoc.find? token p = some v → Assoc.find? token q = some w →
      v.join w = w.join v) :
    joinParts p q = joinParts q p := by
  apply Assoc.eq_of_find?_eq (joinParts_sorted sortedRight) (joinParts_sorted sortedLeft)
  intro token
  rw [find?_joinParts, find?_joinParts]
  cases left : Assoc.find? token p with
  | none => cases Assoc.find? token q <;> rfl
  | some v =>
      cases right : Assoc.find? token q with
      | none => rfl
      | some w => simp [each token v w left right]

theorem joinParts_assoc {p q r : List (Token × Value)} (sorted : Assoc.Sorted r)
    (each : ∀ token u v w, Assoc.find? token p = some u → Assoc.find? token q = some v →
      Assoc.find? token r = some w → (u.join v).join w = u.join (v.join w)) :
    joinParts (joinParts p q) r = joinParts p (joinParts q r) := by
  apply Assoc.eq_of_find?_eq (joinParts_sorted sorted) (joinParts_sorted (joinParts_sorted sorted))
  intro token
  simp only [find?_joinParts]
  cases first : Assoc.find? token p with
  | none => rfl
  | some u =>
      cases second : Assoc.find? token q with
      | none => cases Assoc.find? token r <;> rfl
      | some v =>
          cases third : Assoc.find? token r with
          | none => rfl
          | some w => simp [each token u v w first second third]

/-! ### Values -/

/-- The join of well-formed values is commutative. -/
theorem join_comm {a : Value} (formedLeft : a.WellFormed) :
    ∀ {b : Value}, b.WellFormed → a.join b = b.join a := by
  induction formedLeft with
  | intro a sorted oneString known parts ih =>
      intro b formedRight
      have formedLeft : a.WellFormed := .intro a sorted oneString known parts
      cases unknownOne : a.isUnknown || b.isUnknown with
      | true => rw [join_unknown unknownOne, join_unknown (by rw [Bool.or_comm, unknownOne])]
      | false =>
          obtain ⟨knownLeft, knownRight⟩ := Bool.or_eq_false_iff.mp unknownOne
          have partsComm : joinParts a.parts b.parts = joinParts b.parts a.parts := by
            apply joinParts_comm sorted formedRight.sorted
            intro token v w left right
            exact ih _ (Assoc.mem_of_find?_eq_some left) (formedRight.part right)
          have splittings : a.splitting.join b.splitting = b.splitting.join a.splitting :=
            Splitting.join_comm (by rw [parts_splitting, parts_splitting, partsComm])
          have strings : joinStrings (a.flags.join b.flags).anyString a.string b.string =
              joinStrings (b.flags.join a.flags).anyString b.string a.string :=
            joinStrings_comm _ _ _ _
          rw [join_eq formedLeft knownLeft knownRight, join_eq formedRight knownRight knownLeft,
            joinedParts_eq, joinedParts_eq, splittings, strings, Flags.join_comm,
            FinSet.union_comm]

theorem flags_join_assoc (f g h : Flags) (p q r s : Bool) (same : p = q) :
    { ({ f.join g with anyString := r } : Flags).join h with anyString := p } =
      { f.join ({ g.join h with anyString := s } : Flags) with anyString := q } := by
  subst same
  simp [Flags.join, Bool.or_assoc]

/-- The join of well-formed values is associative. -/
theorem join_assoc {a : Value} (formedFirst : a.WellFormed) :
    ∀ {b c : Value}, b.WellFormed → c.WellFormed → (a.join b).join c = a.join (b.join c) := by
  induction formedFirst with
  | intro a sorted oneString known parts ih =>
      intro b c formedSecond formedThird
      have formedFirst : a.WellFormed := .intro a sorted oneString known parts
      cases unknownOne : a.isUnknown || (b.isUnknown || c.isUnknown) with
      | true =>
          -- One unknown value anywhere makes both sides the bare unknown value.
          rw [join_unknown (by rw [isUnknown_join, Bool.or_assoc, unknownOne]),
            join_unknown (by rw [isUnknown_join, unknownOne])]
      | false =>
          obtain ⟨knownFirst, unknownOther⟩ := Bool.or_eq_false_iff.mp unknownOne
          obtain ⟨knownSecond, knownThird⟩ := Bool.or_eq_false_iff.mp unknownOther
          have knownLeft : (a.join b).isUnknown = false := by
            rw [isUnknown_join, knownFirst, knownSecond]
            rfl
          have knownRight : (b.join c).isUnknown = false := by rw [isUnknown_join, unknownOther]
          have partsAssoc : joinParts (joinParts a.parts b.parts) c.parts =
              joinParts a.parts (joinParts b.parts c.parts) := by
            apply joinParts_assoc formedThird.sorted
            intro token u v w first second third
            exact ih _ (Assoc.mem_of_find?_eq_some first) (formedSecond.part second)
              (formedThird.part third)
          have splittings : joinedParts (a.join b) c = joinedParts a (b.join c) := by
            rw [joinedParts_eq, joinedParts_eq, splitting_join formedFirst knownFirst knownSecond,
              splitting_join formedSecond knownSecond knownThird,
              Splitting.join_assoc (by simp only [parts_splitting, partsAssoc])]
          rw [join_eq (formedFirst.join formedSecond) knownLeft knownThird,
            join_eq formedFirst knownFirst knownRight, splittings,
            join_eq formedFirst knownFirst knownSecond, join_eq formedSecond knownSecond knownThird]
          have strings := joinStrings_assoc a.flags.anyString b.flags.anyString c.flags.anyString
            a.string b.string c.string
          refine mk.injEq .. |>.mpr ⟨?_, congrArg Prod.snd strings, FinSet.union_assoc _ _ _, rfl⟩
          exact flags_join_assoc _ _ _ _ _ _ _ (congrArg Prod.fst strings)

section

variable {a b c : Value}

theorem Absorbs.trans (formedFirst : a.WellFormed) (formedSecond : b.WellFormed)
    (formedThird : c.WellFormed) (upper : a.Absorbs b) (lower : b.Absorbs c) : a.Absorbs c :=
  calc a.join c = (a.join b).join c := by rw [upper]
    _ = a.join (b.join c) := join_assoc formedFirst formedSecond formedThird
    _ = a.join b := by rw [lower]
    _ = a := upper

/-- What absorbs two values absorbs their join. -/
theorem absorbs_join (formedFirst : a.WellFormed) (formedSecond : b.WellFormed)
    (formedThird : c.WellFormed) (left : a.Absorbs b) (right : a.Absorbs c) :
    a.Absorbs (b.join c) :=
  calc a.join (b.join c) = (a.join b).join c :=
        (join_assoc formedFirst formedSecond formedThird).symm
    _ = a.join c := by rw [left]
    _ = a := right

/-- What absorbs some values absorbs their join. -/
theorem absorbs_foldl (formed : a.WellFormed) {values : List Value}
    (formedValues : ∀ v ∈ values, v.WellFormed) (formedStart : b.WellFormed)
    (start : a.Absorbs b) (each : ∀ v ∈ values, a.Absorbs v) :
    a.Absorbs (values.foldl join b) := by
  induction values generalizing b with
  | nil => exact start
  | cons v rest ih =>
      have formedFirst := formedValues v List.mem_cons_self
      have first := each v List.mem_cons_self
      exact ih (fun other member => formedValues other (List.mem_cons_of_mem _ member))
        (formedStart.join formedFirst) (absorbs_join formed formedStart formedFirst start first)
        fun other member => each other (List.mem_cons_of_mem _ member)

end

/-- Bottom adds nothing to a join. -/
theorem none_join_join {a b : Value} (formed : a.WellFormed) (formedOther : b.WellFormed) :
    none.join (a.join b) = a.join b := by
  cases unknown : (a.join b).isUnknown with
  | false => exact none_join (formed.join formedOther) unknown
  | true =>
      rw [isUnknown_join] at unknown
      rw [join_unknown unknown]
      rfl

/-- A value is idempotent exactly if it is known or is the bare unknown value. -/
theorem join_self_iff (a : Value) : a.join a = a ↔ a.isUnknown = false ∨ a = unknown := by
  cases isUnknown : a.isUnknown with
  | false => simp [join_same isUnknown]
  | true =>
      rw [join_unknown (by simp [isUnknown])]
      simp [eq_comm]

/-- Bottom is neutral for a value exactly if it is known or is the bare unknown value. -/
theorem join_none_iff {a : Value} (formed : a.WellFormed) :
    a.join none = a ↔ a.isUnknown = false ∨ a = unknown := by
  cases isUnknown : a.isUnknown with
  | false =>
      have bottom : none.WellFormed := .ofFlags {}
      simp [join_comm formed bottom, none_join formed isUnknown]
  | true =>
      rw [join_unknown (by simp [isUnknown])]
      simp [eq_comm]

/-- On the values that can be built, the join is commutative and associative. It is idempotent, with
    bottom as its neutral element, on those that are known and on the bare unknown value, and on no
    others. -/
theorem join_semilattice {a b c : Value} (first : a.Built) (second : b.Built) (third : c.Built) :
    a.join b = b.join a ∧ (a.join b).join c = a.join (b.join c) ∧
      (a.join a = a ↔ a.isUnknown = false ∨ a = unknown) ∧
      (a.join none = a ↔ a.isUnknown = false ∨ a = unknown) := by
  refine ⟨?_, ?_, join_self_iff a, join_none_iff first.wellFormed⟩
  · exact join_comm first.wellFormed second.wellFormed
  · exact join_assoc first.wellFormed second.wellFormed third.wellFormed

/-- A string that is split by its type, and that again by the property it was read from. -/
def nestedSplit (s : String) : Value :=
  let byType := partitioned (FinMap.empty.insert (.type ⟨0, 0⟩ 1 .string) (ofString s))
  partitioned (FinMap.empty.insert (.property ⟨0, 1⟩ 2 (.name "p")) byType)

theorem nestedSplit_built (s : String) : (nestedSplit s).Built := by
  refine .partitioned _ ?_
  intro part member
  rw [List.mem_singleton.mp member]
  refine .partitioned _ ?_
  intro inner innerMember
  rw [List.mem_singleton.mp innerMember]
  exact .ofString s

/-- Two nested splittings that disagree at the innermost part, and a bottom that was modified. -/
theorem nestedSplit_semilattice :
    ((nestedSplit "x").Built ∧ (nestedSplit "y").Built ∧ noneModified.Built) ∧
      (nestedSplit "x").join (nestedSplit "y") = (nestedSplit "y").join (nestedSplit "x") ∧
      ((nestedSplit "x").join (nestedSplit "y")).join noneModified =
        (nestedSplit "x").join ((nestedSplit "y").join noneModified) ∧
      (nestedSplit "x").join (nestedSplit "x") = nestedSplit "x" ∧
      (nestedSplit "x").join none = nestedSplit "x" := by
  have laws := join_semilattice (nestedSplit_built "x") (nestedSplit_built "y") .noneModified
  obtain ⟨comm, assoc, idempotent, neutral⟩ := laws
  have known : (nestedSplit "x").isUnknown = false := by decide
  exact ⟨⟨nestedSplit_built "x", nestedSplit_built "y", .noneModified⟩, comm, assoc,
    idempotent.mpr (.inl known), neutral.mpr (.inl known)⟩

end Value

end ScriptHeap
