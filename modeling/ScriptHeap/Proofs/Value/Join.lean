import ScriptHeap.Proofs.Lookup
import ScriptHeap.Value.Basic

/-!
# Joins of abstract values as upper bounds

A value absorbs another when joining it changes nothing. On well-formed values a join absorbs its
right operand (`join_absorbs`), and what a value absorbs, each join of it with a further value
absorbs as well (`Absorbs.join`). An unknown value that carries flags beside the one for being
unknown does not even absorb itself, so the second law is what makes joins upper bounds in the long
run.

Both laws rest on one equation for the join of known values (`join_eq`): there the shortcut for
equal operands makes no difference.
-/

namespace ScriptHeap.Value

/-- The parts of a value are in order, none of them is unknown unless the value is, and a known
    string is there only where the flag for any string is not set. The same holds of the parts. -/
inductive WellFormed : Value → Prop where
  | intro (v : Value) (sorted : Assoc.Sorted v.parts)
      (oneString : v.flags.anyString = true → v.string = Option.none)
      (known : v.isUnknown = false → ∀ part ∈ v.parts, part.2.isUnknown = false)
      (parts : ∀ part ∈ v.parts, WellFormed part.2) : WellFormed v

namespace WellFormed

variable {v : Value}

theorem sorted (formed : v.WellFormed) : Assoc.Sorted v.parts := by
  cases formed
  assumption

theorem oneString (formed : v.WellFormed) (any : v.flags.anyString = true) :
    v.string = Option.none := by
  cases formed with
  | intro _ _ oneString => exact oneString any

theorem part_known (formed : v.WellFormed) (known : v.isUnknown = false) {token : Token}
    {part : Value} (found : Assoc.find? token v.parts = some part) : part.isUnknown = false := by
  cases formed with
  | intro _ _ _ allKnown => exact allKnown known _ (Assoc.mem_of_find?_eq_some found)

theorem part (formed : v.WellFormed) {token : Token} {part : Value}
    (found : Assoc.find? token v.parts = some part) : part.WellFormed := by
  cases formed with
  | intro _ _ _ _ parts => exact parts _ (Assoc.mem_of_find?_eq_some found)

/-- A value that is not split is well formed if its strings are. -/
theorem of_whole (whole : v.parts = [])
    (oneString : v.flags.anyString = true → v.string = Option.none) : v.WellFormed := by
  refine .intro v ?_ oneString ?_ ?_
  · simp [whole, Assoc.Sorted]
  · simp [whole]
  · simp [whole]

/-- Changing flags that say nothing of strings or of being unknown keeps a value well formed. -/
theorem of_same {w : Value} (formed : v.WellFormed) (parts : w.parts = v.parts)
    (string : w.string = v.string) (any : w.flags.anyString = v.flags.anyString)
    (unknown : w.flags.unknown = v.flags.unknown) : w.WellFormed := by
  cases formed with
  | intro _ sorted oneString known partsFormed =>
      refine .intro w (parts ▸ sorted) ?_ ?_ (parts ▸ partsFormed)
      · rw [any, string]
        exact oneString
      · rw [parts]
        intro isKnown
        exact known (by simpa [isUnknown, unknown] using isKnown)

end WellFormed

/-! ### The equation of the join -/

/-- The parts of the join of two known values. -/
def joinedParts (a b : Value) : List (Token × Value) :=
  if a.parts.isEmpty then
    if a.isNone then b.parts else []
  else if b.parts.isEmpty then
    if b.isNone then a.parts else []
  else joinParts a.parts b.parts

theorem join_unknown {a b : Value} (unknownOne : (a.isUnknown || b.isUnknown) = true) :
    a.join b = unknown := by
  cases a
  unfold join
  exact if_pos unknownOne

theorem join_same {a : Value} (known : a.isUnknown = false) : a.join a = a := by
  have flag : (a.isUnknown || a.isUnknown) = false := by simp [known]
  cases a with
  | mk flags string labels parts =>
      unfold join
      rw [if_neg (by simpa [isUnknown] using known), if_pos rfl]

theorem join_of_ne {a b : Value} (knownLeft : a.isUnknown = false)
    (knownRight : b.isUnknown = false) (different : a ≠ b) :
    a.join b =
      ⟨{ a.flags.join b.flags with
          anyString := (joinStrings (a.flags.join b.flags).anyString a.string b.string).1 },
        (joinStrings (a.flags.join b.flags).anyString a.string b.string).2,
        a.labels ∪ b.labels, joinedParts a b⟩ := by
  cases a with
  | mk flags string labels parts =>
      have notUnknown : ¬ (flags.unknown || b.isUnknown) = true := by
        have left : flags.unknown = false := knownLeft
        simp [left, knownRight]
      unfold join
      rw [if_neg notUnknown, if_neg different]
      rfl

/-- A part of a join is the join of the parts, or the only part. -/
theorem find?_joinParts (token : Token) (p q : List (Token × Value)) :
    Assoc.find? token (joinParts p q) =
      match Assoc.find? token p, Assoc.find? token q with
      | some v, some w => some (v.join w)
      | some v, Option.none => some v
      | Option.none, other => other := by
  induction p with
  | nil =>
      unfold joinParts
      cases found : Assoc.find? token q <;> simp [Assoc.find?]
  | cons entry rest ih =>
      obtain ⟨t, v⟩ := entry
      unfold joinParts
      by_cases same : token = t
      · subst same
        cases Assoc.find? token q <;> simp [Assoc.find?, Assoc.find?_insert]
      · cases other : Assoc.find? t q <;>
          simp [Assoc.find?, Assoc.find?_insert, same, ih]

theorem joinParts_sorted {p q : List (Token × Value)} (sorted : Assoc.Sorted q) :
    Assoc.Sorted (joinParts p q) := by
  induction p with
  | nil =>
      unfold joinParts
      exact sorted
  | cons entry rest ih =>
      obtain ⟨t, v⟩ := entry
      unfold joinParts
      split <;> exact Assoc.insert_sorted ih

theorem joinParts_same {p : List (Token × Value)} (sorted : Assoc.Sorted p)
    (known : ∀ part ∈ p, part.2.isUnknown = false) : joinParts p p = p := by
  apply Assoc.eq_of_find?_eq (joinParts_sorted sorted) sorted
  intro token
  rw [find?_joinParts]
  cases found : Assoc.find? token p with
  | none => rfl
  | some v =>
      have vKnown : v.isUnknown = false := known _ (Assoc.mem_of_find?_eq_some found)
      simp [join_same vKnown]

theorem joinParts_isEmpty {p q : List (Token × Value)} (filled : p.isEmpty = false) :
    (joinParts p q).isEmpty = false := by
  cases p with
  | nil => simp at filled
  | cons entry rest =>
      obtain ⟨t, v⟩ := entry
      have found : ∃ w, Assoc.find? t (joinParts ((t, v) :: rest) q) = some w := by
        rw [find?_joinParts]
        cases Assoc.find? t q <;> simp [Assoc.find?]
      obtain ⟨w, found⟩ := found
      cases joined : joinParts ((t, v) :: rest) q with
      | nil => simp [joined, Assoc.find?] at found
      | cons => rfl

theorem joinedParts_same {a : Value} (formed : a.WellFormed) (known : a.isUnknown = false) :
    joinedParts a a = a.parts := by
  cases formed with
  | intro _ sorted _ partsKnown =>
      unfold joinedParts
      by_cases whole : a.parts.isEmpty = true
      · simp_all
      · simp [whole, joinParts_same sorted (partsKnown known)]

theorem joinStrings_same (a : Value) (formed : a.WellFormed) :
    joinStrings a.flags.anyString a.string a.string = (a.flags.anyString, a.string) := by
  unfold joinStrings
  cases any : a.flags.anyString with
  | true => simp [formed.oneString any]
  | false => cases a.string <;> simp

/-- The join of known values, whether they are equal or not. -/
theorem join_eq {a b : Value} (formedLeft : a.WellFormed) (knownLeft : a.isUnknown = false)
    (knownRight : b.isUnknown = false) :
    a.join b =
      ⟨{ a.flags.join b.flags with
          anyString := (joinStrings (a.flags.join b.flags).anyString a.string b.string).1 },
        (joinStrings (a.flags.join b.flags).anyString a.string b.string).2,
        a.labels ∪ b.labels, joinedParts a b⟩ := by
  by_cases same : a = b
  · subst same
    have labels : a.labels ∪ a.labels = a.labels := FinSet.union_eq_left.mpr fun _ h => h
    rw [join_same knownLeft, Flags.join_self, joinStrings_same a formedLeft, labels,
      joinedParts_same formedLeft knownLeft]
    cases a
    rfl
  · exact join_of_ne knownLeft knownRight same

theorem isUnknown_join (a b : Value) : (a.join b).isUnknown = (a.isUnknown || b.isUnknown) := by
  cases unknownOne : a.isUnknown || b.isUnknown with
  | true =>
      rw [join_unknown unknownOne]
      rfl
  | false =>
      obtain ⟨knownLeft, knownRight⟩ := Bool.or_eq_false_iff.mp unknownOne
      by_cases same : a = b
      · subst same
        rw [join_same knownLeft]
        exact knownLeft
      · rw [join_of_ne knownLeft knownRight same]
        exact unknownOne

theorem mem_labels_of_join {a b : Value} {label : Label} (member : label ∈ (a.join b).labels) :
    label ∈ a.labels ∨ label ∈ b.labels := by
  cases unknownOne : a.isUnknown || b.isUnknown with
  | true =>
      rw [join_unknown unknownOne] at member
      cases member
  | false =>
      obtain ⟨knownLeft, knownRight⟩ := Bool.or_eq_false_iff.mp unknownOne
      by_cases same : a = b
      · rw [← same, join_same knownLeft] at member
        exact .inl member
      · rw [join_of_ne knownLeft knownRight same] at member
        exact FinSet.mem_union.mp member

theorem joinStrings_isSome (any : Bool) (s t : Option String) :
    ((joinStrings any s t).1 || (joinStrings any s t).2.isSome) =
      (any || s.isSome || t.isSome) := by
  unfold joinStrings
  cases any <;> cases s <;> cases t <;> grind

/-- A join of known values may have been modified where one of them may. -/
theorem maybeModified_join {a b : Value} (formed : a.WellFormed) (knownLeft : a.isUnknown = false)
    (knownRight : b.isUnknown = false) :
    (a.join b).maybeModified = (a.maybeModified || b.maybeModified) := by
  rw [join_eq formed knownLeft knownRight]
  rfl

/-- A join is bottom exactly where both sides are. -/
theorem isNone_join {a b : Value} (formed : a.WellFormed) (knownLeft : a.isUnknown = false)
    (knownRight : b.isUnknown = false) : (a.join b).isNone = (a.isNone && b.isNone) := by
  have labels : (a.labels ∪ b.labels).isEmpty = (a.labels.isEmpty && b.labels.isEmpty) := by
    rw [Bool.eq_iff_iff, Bool.and_eq_true, FinSet.isEmpty_eq_true_iff, FinSet.isEmpty_eq_true_iff,
      FinSet.isEmpty_eq_true_iff]
    constructor
    · intro empty
      exact ⟨fun l member => empty l (FinSet.mem_union.mpr (.inl member)),
        fun l member => empty l (FinSet.mem_union.mpr (.inr member))⟩
    · rintro ⟨left, right⟩ l member
      exact (FinSet.mem_union.mp member).elim (left l) (right l)
  have strings := joinStrings_isSome (a.flags.join b.flags).anyString a.string b.string
  rw [join_eq formed knownLeft knownRight, Bool.eq_iff_iff]
  simp only [isNone, labels, Flags.somePrimitive, ← Option.not_isSome]
  generalize joinStrings (a.flags.join b.flags).anyString a.string b.string = joined at strings
  simp only [Flags.join] at strings ⊢
  grind

/-- A part of a join is a part of one side, or the join of a part of each. -/
theorem forall_joinedParts {P : Value → Prop} {a b : Value} (sorted : Assoc.Sorted b.parts)
    (left : ∀ part ∈ a.parts, P part.2) (right : ∀ part ∈ b.parts, P part.2)
    (both : ∀ token v w, Assoc.find? token a.parts = some v → Assoc.find? token b.parts = some w →
      P (v.join w)) :
    ∀ part ∈ joinedParts a b, P part.2 := by
  rintro ⟨token, v⟩ member
  unfold joinedParts at member
  split at member
  · split at member
    · exact right _ member
    · cases member
  · split at member
    · split at member
      · exact left _ member
      · cases member
    · have found := Assoc.find?_eq_some_of_mem (joinParts_sorted sorted) member
      rw [find?_joinParts] at found
      split at found
      · rename_i v' w' foundLeft foundRight
        cases found
        exact both token v' w' foundLeft foundRight
      · rename_i v' foundLeft _
        cases found
        exact left _ (Assoc.mem_of_find?_eq_some foundLeft)
      · exact right _ (Assoc.mem_of_find?_eq_some found)

theorem joinedParts_sorted {a b : Value} (left : Assoc.Sorted a.parts)
    (right : Assoc.Sorted b.parts) : Assoc.Sorted (joinedParts a b) := by
  unfold joinedParts
  split
  · split
    · exact right
    · exact List.Pairwise.nil
  · split
    · split
      · exact left
      · exact List.Pairwise.nil
    · exact joinParts_sorted right

theorem WellFormed.join {a : Value} (formedLeft : a.WellFormed) :
    ∀ {b : Value}, b.WellFormed → (a.join b).WellFormed := by
  induction formedLeft with
  | intro a sorted oneString known parts ih =>
      intro b formedRight
      have formedLeft : a.WellFormed := .intro a sorted oneString known parts
      cases unknownOne : a.isUnknown || b.isUnknown with
      | true =>
          rw [join_unknown unknownOne]
          exact .of_whole rfl nofun
      | false =>
          obtain ⟨knownLeft, knownRight⟩ := Bool.or_eq_false_iff.mp unknownOne
          rw [join_eq formedLeft knownLeft knownRight]
          obtain ⟨_, sortedRight, _, knownPartsRight, partsRight⟩ := formedRight
          refine .intro _ (joinedParts_sorted sorted sortedRight) ?_ ?_ ?_
          · unfold joinStrings
            cases a.string <;> cases b.string <;> grind
          · intro _
            refine forall_joinedParts (P := fun part => part.isUnknown = false) sortedRight
              (known knownLeft) (knownPartsRight knownRight) ?_
            intro token v w foundLeft foundRight
            rw [isUnknown_join, known knownLeft _ (Assoc.mem_of_find?_eq_some foundLeft),
              knownPartsRight knownRight _ (Assoc.mem_of_find?_eq_some foundRight)]
            rfl
          · refine forall_joinedParts sortedRight parts partsRight ?_
            intro token v w foundLeft foundRight
            exact ih _ (Assoc.mem_of_find?_eq_some foundLeft)
              (partsRight _ (Assoc.mem_of_find?_eq_some foundRight))

/-! ### Absorption -/

/-- Joining the second value to the first changes nothing. -/
def Absorbs (a b : Value) : Prop := a.join b = a

instance (a b : Value) : Decidable (a.Absorbs b) := inferInstanceAs (Decidable (a.join b = a))

/-- A known value absorbs only known values. -/
theorem Absorbs.known {a b : Value} (absorbed : a.Absorbs b) (known : a.isUnknown = false) :
    b.isUnknown = false := by
  have both := isUnknown_join a b
  rw [absorbed, known, Bool.false_or] at both
  exact both.symm

theorem joinStrings_absorbs (p q : Bool) (s t : Option String) :
    let joined := joinStrings (p || q) s t
    joinStrings (joined.1 || q) joined.2 t = joined := by
  unfold joinStrings
  cases p <;> cases q <;> cases s <;> cases t <;> grind

theorem joinStrings_still_absorbs {p q r : Bool} {s t u : Option String}
    (absorbed : joinStrings (p || q) s t = (p, s)) :
    let joined := joinStrings (p || r) s u
    joinStrings (joined.1 || q) joined.2 t = joined := by
  unfold joinStrings at *
  cases p <;> cases q <;> cases r <;> cases s <;> cases t <;> cases u <;> grind

/-- Absorption of known values, component by component. -/
theorem absorbs_iff {a b : Value} (formed : a.WellFormed) (knownLeft : a.isUnknown = false)
    (knownRight : b.isUnknown = false) :
    a.Absorbs b ↔
      { a.flags.join b.flags with anyString := a.flags.anyString } = a.flags ∧
      joinStrings (a.flags.anyString || b.flags.anyString) a.string b.string =
        (a.flags.anyString, a.string) ∧
      a.labels ∪ b.labels = a.labels ∧ joinedParts a b = a.parts := by
  unfold Absorbs
  rw [join_eq formed knownLeft knownRight]
  generalize joinedParts a b = joinedParts
  generalize strings : joinStrings (a.flags.join b.flags).anyString a.string b.string = joined
  rw [show joinStrings (a.flags.anyString || b.flags.anyString) a.string b.string = joined from
    strings]
  cases a with
  | mk f s l p =>
      rw [mk.injEq]
      constructor
      · rintro ⟨flags, string, labels, parts⟩
        have any : joined.1 = f.anyString := congrArg Flags.anyString flags
        exact ⟨any ▸ flags, Prod.ext any string, labels, parts⟩
      · rintro ⟨flags, rfl, labels, parts⟩
        exact ⟨flags, rfl, labels, parts⟩

/-- The flags of a join, given the flag for any string. -/
theorem flags_absorb (f g : Flags) (any : Bool) :
    { ({ f.join g with anyString := any } : Flags).join g with anyString := any } =
      { f.join g with anyString := any } := by
  simp [Flags.join]

theorem flags_still_absorb {f g : Flags} (h : Flags) (any : Bool)
    (absorbed : { f.join g with anyString := f.anyString } = f) :
    { ({ f.join h with anyString := any } : Flags).join g with anyString := any } =
      { f.join h with anyString := any } := by
  have stays : ∀ {a b : Bool} (c : Bool), (a || b) = a → ((a || c) || b) = (a || c) := by decide
  cases f
  cases g
  cases h
  simp only [Flags.join, Flags.mk.injEq] at absorbed ⊢
  obtain ⟨h₁, h₂, h₃, h₄, h₅, -, h₆, h₇, h₈, h₉, h₁₀, h₁₁⟩ := absorbed
  exact ⟨stays _ h₁, stays _ h₂, stays _ h₃, stays _ h₄, stays _ h₅, trivial, stays _ h₆,
    stays _ h₇,
    stays _ h₈, stays _ h₉, stays _ h₁₀, stays _ h₁₁⟩

/-! The parts of a value need a case for each way that the parts of a join can come about. -/

theorem joinedParts_absorbs {a b : Value} (formedLeft : a.WellFormed) (formedRight : b.WellFormed)
    (knownLeft : a.isUnknown = false) (knownRight : b.isUnknown = false)
    (ih : ∀ token v w, Assoc.find? token a.parts = some v → Assoc.find? token b.parts = some w →
      (v.join w).Absorbs w) :
    joinedParts (a.join b) b = joinedParts a b := by
  have bottom := isNone_join formedLeft knownLeft knownRight
  have parts : (a.join b).parts = joinedParts a b := by rw [join_eq formedLeft knownLeft knownRight]
  have again : joinParts b.parts b.parts = b.parts := by
    obtain ⟨_, sorted, _, partsKnown, _⟩ := formedRight
    exact joinParts_same sorted (partsKnown knownRight)
  unfold joinedParts at parts ⊢
  by_cases splitLeft : a.parts.isEmpty = true
  · by_cases bottomLeft : a.isNone = true
    · by_cases splitRight : b.parts.isEmpty = true
      · simp_all
      · simp_all
    · simp_all
  · by_cases splitRight : b.parts.isEmpty = true
    · by_cases bottomRight : b.isNone = true
      · simp_all
      · simp_all
    · simp only [splitLeft, splitRight, if_false, Bool.false_eq_true] at parts ⊢
      have filled := joinParts_isEmpty (q := b.parts) (Bool.eq_false_iff.mpr splitLeft)
      rw [parts, if_neg (Bool.eq_false_iff.mp filled)]
      apply Assoc.eq_of_find?_eq (joinParts_sorted formedRight.sorted)
        (joinParts_sorted formedRight.sorted)
      intro token
      rw [find?_joinParts, find?_joinParts]
      cases foundLeft : Assoc.find? token a.parts with
      | none =>
          cases foundRight : Assoc.find? token b.parts with
          | none => rfl
          | some w => simp [join_same (formedRight.part_known knownRight foundRight)]
      | some v =>
          cases foundRight : Assoc.find? token b.parts with
          | none => rfl
          | some w =>
              have absorbed : (v.join w).join w = v.join w := ih token v w foundLeft foundRight
              simp [absorbed]

/-- A join absorbs its right operand. -/
theorem join_absorbs {a : Value} (formedLeft : a.WellFormed) :
    ∀ {b : Value}, b.WellFormed → (a.join b).Absorbs b := by
  induction formedLeft with
  | intro a sorted oneString known parts ih =>
      intro b formedRight
      have formedLeft : a.WellFormed := .intro a sorted oneString known parts
      cases unknownOne : a.isUnknown || b.isUnknown with
      | true =>
          rw [join_unknown unknownOne]
          exact join_unknown rfl
      | false =>
          obtain ⟨knownLeft, knownRight⟩ := Bool.or_eq_false_iff.mp unknownOne
          have knownJoin : (a.join b).isUnknown = false := by rw [isUnknown_join, unknownOne]
          have partsAbsorb := joinedParts_absorbs formedLeft formedRight knownLeft knownRight
            fun token v w foundLeft foundRight =>
              ih _ (Assoc.mem_of_find?_eq_some foundLeft) (formedRight.part foundRight)
          have labels : a.labels ∪ b.labels ∪ b.labels = a.labels ∪ b.labels :=
            FinSet.union_eq_left.mpr fun l member => FinSet.mem_union.mpr (.inr member)
          rw [absorbs_iff (formedLeft.join formedRight) knownJoin knownRight, partsAbsorb]
          rw [join_eq formedLeft knownLeft knownRight]
          exact ⟨flags_absorb _ _ _, joinStrings_absorbs _ _ _ _, labels, rfl⟩

theorem joinParts_still_absorb {a b c : Value} (formedOther : c.WellFormed)
    (formedRight : b.WellFormed) (absorbed : joinParts a.parts b.parts = a.parts)
    (ih : ∀ token v w u, Assoc.find? token a.parts = some v → Assoc.find? token b.parts = some w →
      Assoc.find? token c.parts = some u → v.Absorbs w → (v.join u).Absorbs w) :
    joinParts (joinParts a.parts c.parts) b.parts = joinParts a.parts c.parts := by
  apply Assoc.eq_of_find?_eq (joinParts_sorted formedRight.sorted)
    (joinParts_sorted formedOther.sorted)
  intro token
  have part : Assoc.find? token (joinParts a.parts b.parts) = Assoc.find? token a.parts := by
    rw [absorbed]
  rw [find?_joinParts] at part
  rw [find?_joinParts, find?_joinParts]
  cases foundLeft : Assoc.find? token a.parts with
  | none =>
      -- A part that the first value does not have, the absorbed value does not have either.
      cases foundRight : Assoc.find? token b.parts with
      | none => cases Assoc.find? token c.parts <;> rfl
      | some w => simp [foundLeft, foundRight] at part
  | some v =>
      cases foundRight : Assoc.find? token b.parts with
      | none => cases Assoc.find? token c.parts <;> rfl
      | some w =>
          have own : v.join w = v := by simpa [foundLeft, foundRight] using part
          cases foundOther : Assoc.find? token c.parts with
          | none => simp [own]
          | some u =>
              have later : (v.join u).join w = v.join u :=
                ih token v w u foundLeft foundRight foundOther own
              simp [later]

theorem joinedParts_still_absorbs {a b c : Value} (formed : a.WellFormed)
    (formedRight : b.WellFormed) (formedOther : c.WellFormed) (knownLeft : a.isUnknown = false)
    (knownRight : b.isUnknown = false) (knownOther : c.isUnknown = false) (absorbed : a.Absorbs b)
    (ih : ∀ token v w u, Assoc.find? token a.parts = some v → Assoc.find? token b.parts = some w →
      Assoc.find? token c.parts = some u → v.Absorbs w → (v.join u).Absorbs w) :
    joinedParts (a.join c) b = joinedParts a c := by
  have bottom := isNone_join formed knownLeft knownOther
  have bottomRight : a.isNone = true → b.isNone = true := by
    intro none
    have both := isNone_join formed knownLeft knownRight
    rw [absorbed, none, Bool.true_and] at both
    exact both.symm
  have parts : (a.join c).parts = joinedParts a c := by rw [join_eq formed knownLeft knownOther]
  have absorbedParts : joinedParts a b = a.parts :=
    ((absorbs_iff formed knownLeft knownRight).mp absorbed).2.2.2
  unfold joinedParts at parts absorbedParts ⊢
  by_cases splitLeft : a.parts.isEmpty = true
  · by_cases bottomLeft : a.isNone = true
    · by_cases splitOther : c.parts.isEmpty = true
      · simp_all
      · simp_all
    · simp_all
  · by_cases splitRight : b.parts.isEmpty = true
    · simp_all
    · simp only [splitLeft, splitRight, if_false, Bool.false_eq_true] at absorbedParts
      by_cases splitOther : c.parts.isEmpty = true
      · by_cases bottomOther : c.isNone = true
        · simp_all
        · simp_all
      · simp only [splitLeft, splitOther, if_false, Bool.false_eq_true] at parts ⊢
        have filled := joinParts_isEmpty (q := c.parts) (Bool.eq_false_iff.mpr splitLeft)
        rw [parts, if_neg (Bool.eq_false_iff.mp filled), if_neg splitRight]
        exact joinParts_still_absorb formedOther formedRight absorbedParts ih

/-- What a value absorbs, each join of it absorbs. -/
theorem Absorbs.join {a : Value} (formed : a.WellFormed) :
    ∀ {b c : Value}, b.WellFormed → c.WellFormed → a.Absorbs b → (a.join c).Absorbs b := by
  induction formed with
  | intro a sorted oneString known parts ih =>
      intro b c formedRight formedOther absorbed
      have formed : a.WellFormed := .intro a sorted oneString known parts
      by_cases unknownOne : (a.isUnknown || c.isUnknown) = true
      · rw [join_unknown unknownOne]
        exact join_unknown rfl
      · obtain ⟨knownLeft, knownOther⟩ := Bool.or_eq_false_iff.mp (Bool.eq_false_iff.mpr unknownOne)
        have knownRight := absorbed.known knownLeft
        have knownJoin : (a.join c).isUnknown = false := by
          simp [isUnknown_join, knownLeft, knownOther]
        have partsAbsorb := joinedParts_still_absorbs formed formedRight formedOther knownLeft
          knownRight knownOther absorbed fun token v w u foundLeft foundRight foundOther =>
            ih _ (Assoc.mem_of_find?_eq_some foundLeft) (formedRight.part foundRight)
              (formedOther.part foundOther)
        obtain ⟨flags, strings, labels, -⟩ :=
          (absorbs_iff formed knownLeft knownRight).mp absorbed
        have labelsAbsorb : a.labels ∪ c.labels ∪ b.labels = a.labels ∪ c.labels := by
          refine FinSet.union_eq_left.mpr fun l member => FinSet.mem_union.mpr (.inl ?_)
          exact FinSet.union_eq_left.mp labels l member
        rw [absorbs_iff (formed.join formedOther) knownJoin knownRight, partsAbsorb]
        rw [join_eq formed knownLeft knownOther]
        exact ⟨flags_still_absorb _ _ flags, joinStrings_still_absorbs strings, labelsAbsorb, rfl⟩

/-- A join absorbs its left operand. -/
theorem join_absorbs_left {a b : Value} (formedLeft : a.WellFormed) (formedRight : b.WellFormed) :
    (a.join b).Absorbs a := by
  cases unknownLeft : a.isUnknown with
  | true =>
      have joined : a.join b = unknown := join_unknown (by simp [unknownLeft])
      rw [joined]
      exact join_unknown rfl
  | false => exact Absorbs.join formedLeft formedLeft formedRight (join_same unknownLeft)

/-- A known value stays as it is when it is joined to bottom. -/
theorem none_join {a : Value} (formed : a.WellFormed) (known : a.isUnknown = false) :
    none.join a = a := by
  have bottom : none.WellFormed := .of_whole rfl nofun
  have labels : none.labels ∪ a.labels = a.labels := by
    rw [FinSet.union_comm]
    exact FinSet.union_eq_left.mpr nofun
  have flags : none.flags.join a.flags = a.flags := by
    rw [Flags.join_comm]
    exact Flags.join_empty a.flags
  have strings : joinStrings a.flags.anyString none.string a.string =
      (a.flags.anyString, a.string) := by
    unfold joinStrings
    cases any : a.flags.anyString with
    | true => simp [formed.oneString any]
    | false => cases a.string <;> rfl
  rw [join_eq bottom rfl known, labels, flags, strings]
  cases a
  rfl

/-- Objects that a known value absorbs are among its own. -/
theorem Absorbs.labels {a b : Value} (formed : a.WellFormed) (known : a.isUnknown = false)
    (absorbed : a.Absorbs b) : ∀ label ∈ b.labels, label ∈ a.labels := by
  have parts := (absorbs_iff formed known (absorbed.known known)).mp absorbed
  exact FinSet.union_eq_left.mp parts.2.2.1

/-- What absorbs an actual value may be one. -/
theorem Absorbs.maybePresentOrUnknown {a b : Value} (formed : a.WellFormed) (absorbed : a.Absorbs b)
    (present : b.maybePresentOrUnknown = true) : a.maybePresentOrUnknown = true := by
  cases known : a.isUnknown with
  | true => simp [Value.maybePresentOrUnknown, known]
  | false =>
      have knownRight := absorbed.known known
      obtain ⟨flags, strings, labels, -⟩ := (absorbs_iff formed known knownRight).mp absorbed
      have string := joinStrings_isSome (a.flags.anyString || b.flags.anyString) a.string b.string
      rw [strings] at string
      have objects : b.maybeObject = true → a.maybeObject = true := by
        unfold maybeObject
        simp only [Bool.not_eq_true', ← Bool.not_eq_true, FinSet.isEmpty_eq_true_iff]
        intro some empty
        exact some fun l member => empty l (absorbed.labels formed known l member)
      simp only [Value.maybePresentOrUnknown, maybePresent, maybePrimitive, known, knownRight,
        Flags.somePrimitive, Flags.join] at *
      grind

/-- What a value absorbs, a join of it with many values absorbs. -/
theorem Absorbs.foldl_join {values : List Value} (formed : ∀ v ∈ values, v.WellFormed) {a b : Value}
    (formedStart : a.WellFormed) (formedOther : b.WellFormed) (absorbed : a.Absorbs b) :
    (values.foldl Value.join a).Absorbs b := by
  induction values generalizing a with
  | nil => exact absorbed
  | cons v rest ih =>
      have formedFirst := formed v List.mem_cons_self
      exact ih (fun other member => formed other (List.mem_cons_of_mem _ member))
        (formedStart.join formedFirst) (absorbed.join formedStart formedOther formedFirst)

/-- A join of many values absorbs each of them. -/
theorem foldl_join_absorbs {values : List Value} (formed : ∀ v ∈ values, v.WellFormed) {a : Value}
    (formedStart : a.WellFormed) : ∀ v ∈ values, (values.foldl join a).Absorbs v := by
  induction values generalizing a with
  | nil => nofun
  | cons w rest ih =>
      have formedFirst := formed w List.mem_cons_self
      have formedRest : ∀ v ∈ rest, v.WellFormed := fun v member =>
        formed v (List.mem_cons_of_mem _ member)
      intro v member
      rcases List.mem_cons.mp member with rfl | member
      · exact (join_absorbs formedStart formedFirst).foldl_join formedRest
          (formedStart.join formedFirst) formedFirst
      · exact ih formedRest (formedStart.join formedFirst) v member

theorem foldl_join_eq_self {values : List Value} {a : Value}
    (absorbed : ∀ v ∈ values, a.Absorbs v) : values.foldl join a = a := by
  induction values with
  | nil => rfl
  | cons v rest ih =>
      have first : a.join v = a := absorbed v List.mem_cons_self
      rw [List.foldl_cons, first]
      exact ih fun other member => absorbed other (List.mem_cons_of_mem _ member)

end ScriptHeap.Value
