import ScriptHeap.Proofs.Value.Semilattice

/-!
# Values that are not split

A plain value is known, has no parts and is well formed. On plain values absorption is an order:
it compares flags, strings and labels (`Plain.absorbs_iff`), and a join is the least upper bound
(`Plain.absorbs_join_iff`).
-/

namespace ScriptHeap

namespace Flags

/-- The flag for any string can be looked at apart from the other flags. -/
theorem join_with_anyString {f g : Flags} {any : Bool}
    (others : { f.join g with anyString := f.anyString } = f)
    (implied : any = true → f.anyString = true) : f.join { g with anyString := any } = f := by
  have flag : (f.anyString || any) = f.anyString := by
    cases any with
    | false => simp
    | true => simp [implied rfl]
  calc f.join { g with anyString := any }
      = { f.join g with anyString := f.anyString || any } := rfl
    _ = f := by rw [flag, others]

end Flags

namespace Value

theorem collapse_of_whole {v : Value} (whole : v.parts = []) : v.collapse = v := by
  cases v
  simp_all [collapse]

/-- The join of values that are not split is not split. -/
theorem parts_join {v w : Value} (left : v.parts = []) (right : w.parts = []) :
    (v.join w).parts = [] := by
  cases unknownOne : v.isUnknown || w.isUnknown with
  | true =>
      rw [join_unknown unknownOne]
      rfl
  | false =>
      obtain ⟨knownLeft, knownRight⟩ := Bool.or_eq_false_iff.mp unknownOne
      by_cases same : v = w
      · rw [← same, join_same knownLeft]
        exact left
      · rw [join_of_ne knownLeft knownRight same]
        simp [joinedParts, left, right]

/-- The value is known, has no parts and is well formed. -/
structure Plain (v : Value) : Prop where
  formed : v.WellFormed
  known : v.isUnknown = false
  whole : v.parts = []

/-- The string that the value may be is one that the other value may be. -/
def StringBelow (v w : Value) : Prop :=
  ∀ s, v.string = some s → w.string = some s ∨ w.flags.anyString = true

namespace Plain

variable {u v w : Value}

theorem ofFlags {flags : Flags} (known : flags.unknown = false) : (Value.ofFlags flags).Plain :=
  ⟨.ofFlags flags, known, rfl⟩

theorem ofString (s : String) : (Value.ofString s).Plain := ⟨.ofString s, rfl, rfl⟩

theorem object (label : Label) : (Value.object label).Plain := ⟨.objects _, rfl, rfl⟩

theorem join (left : v.Plain) (right : w.Plain) : (v.join w).Plain where
  formed := left.formed.join right.formed
  known := by rw [isUnknown_join, left.known, right.known]; rfl
  whole := parts_join left.whole right.whole

/-- Flags that say nothing of strings and of being unknown can change. -/
theorem reflag (plain : v.Plain) {flags : Flags} (any : flags.anyString = v.flags.anyString)
    (unknown : flags.unknown = v.flags.unknown) : Plain { v with flags } where
  formed := plain.formed.of_same rfl rfl any unknown
  known := unknown.trans plain.known
  whole := plain.whole

/-! ### The order -/

/-- A join has the strings of its first side exactly if they cover those of the second: all strings
    cover everything, and one string covers itself. -/
theorem joinStrings_eq_iff {p q : Bool} {s t : Option String}
    (formed : p = true → s = Option.none) :
    joinStrings (p || q) s t = (p, s) ↔
      (q = true → p = true) ∧ ∀ r, t = some r → s = some r ∨ p = true := by
  cases p with
  | true =>
      rw [formed rfl]
      simp [joinStrings]
  | false =>
      cases q with
      | true => simp [joinStrings]
      | false =>
          cases t with
          | none => cases s <;> simp [joinStrings]
          | some new =>
              cases s with
              | none => simp [joinStrings]
              | some old =>
                  -- Two known strings stay known only if they are the same.
                  by_cases same : old = new
                  · simp [joinStrings, same]
                  · simp [joinStrings, same]

/-- Absorption of plain values, component by component. -/
theorem absorbs_iff (left : w.Plain) (right : v.Plain) :
    w.Absorbs v ↔ w.flags.join v.flags = w.flags ∧ v.StringBelow w ∧
      ∀ label ∈ v.labels, label ∈ w.labels := by
  have parts : joinedParts w v = w.parts := by simp [joinedParts, left.whole, right.whole]
  rw [Value.absorbs_iff left.formed left.known right.known,
    joinStrings_eq_iff left.formed.oneString, FinSet.union_eq_left]
  constructor
  · rintro ⟨flags, ⟨any, string⟩, labels, -⟩
    exact ⟨Flags.join_with_anyString flags any, string, labels⟩
  · rintro ⟨flags, string, labels⟩
    have any : (w.flags.anyString || v.flags.anyString) = w.flags.anyString :=
      congrArg Flags.anyString flags
    refine ⟨?_, ⟨fun holds => ?_, string⟩, labels, parts⟩
    · rw [flags]
    · rwa [holds, Bool.or_true, eq_comm] at any

theorem absorbs_self (plain : v.Plain) : v.Absorbs v := join_same plain.known

theorem absorbs_none (plain : v.Plain) : v.Absorbs .none :=
  (plain.absorbs_iff (.ofFlags rfl)).mpr ⟨Flags.join_empty _, nofun, nofun⟩

theorem absorbs_trans (first : u.Plain) (second : v.Plain) (third : w.Plain) (upper : w.Absorbs v)
    (lower : v.Absorbs u) : w.Absorbs u :=
  upper.trans third.formed second.formed first.formed lower

/-- A string of a join is one of a side. -/
theorem string_join (left : v.Plain) (right : w.Plain) {s : String}
    (known : (v.join w).string = some s) : v.string = some s ∨ w.string = some s := by
  rw [join_eq left.formed left.known right.known] at known
  unfold joinStrings at known
  grind

/-- A join is the least upper bound. -/
theorem absorbs_join_iff (first : u.Plain) (left : v.Plain) (right : w.Plain) :
    u.Absorbs (v.join w) ↔ u.Absorbs v ∧ u.Absorbs w := by
  constructor
  · intro both
    exact ⟨absorbs_trans left (left.join right) first both
        (join_absorbs_left left.formed right.formed),
      absorbs_trans right (left.join right) first both (join_absorbs left.formed right.formed)⟩
  · rintro ⟨above, above'⟩
    exact absorbs_join first.formed left.formed right.formed above above'

/-- What absorbs a value absorbs what the value absorbs when both are joined to more. -/
theorem absorbs_join_left (first : u.Plain) (second : v.Plain) (third : w.Plain)
    (above : v.Absorbs u) : (v.join w).Absorbs u :=
  absorbs_trans first second (second.join third)
    (join_absorbs_left second.formed third.formed) above

theorem absorbs_join_right (first : u.Plain) (second : v.Plain) (third : w.Plain)
    (above : w.Absorbs u) : (v.join w).Absorbs u :=
  absorbs_trans first third (second.join third) (join_absorbs second.formed third.formed) above

theorem foldl_join {values : List Value} (plain : ∀ v ∈ values, v.Plain) {start : Value}
    (plainStart : start.Plain) : (values.foldl Value.join start).Plain := by
  induction values generalizing start with
  | nil => exact plainStart
  | cons v rest ih =>
      exact ih (fun other member => plain other (List.mem_cons_of_mem _ member))
        (plainStart.join (plain v List.mem_cons_self))

/-- A join of many values is the least upper bound of them. -/
theorem absorbs_foldl_iff (first : u.Plain) {values : List Value}
    (plain : ∀ v ∈ values, v.Plain) {start : Value} (plainStart : start.Plain) :
    u.Absorbs (values.foldl Value.join start) ↔
      u.Absorbs start ∧ ∀ v ∈ values, u.Absorbs v := by
  induction values generalizing start with
  | nil => simp
  | cons v rest ih =>
      have plainFirst := plain v List.mem_cons_self
      rw [List.foldl_cons, ih (fun other member => plain other (List.mem_cons_of_mem _ member))
        (plainStart.join plainFirst), absorbs_join_iff first plainStart plainFirst,
        List.forall_mem_cons, and_assoc]

/-- A change of flags that goes flag by flag keeps the order. -/
theorem absorbs_reflag (left : w.Plain) (right : v.Plain) {f : Flags → Flags}
    (additive : ∀ g h : Flags, (f g).join (f h) = f (g.join h))
    (any : ∀ g, (f g).anyString = g.anyString) (unknown : ∀ g, (f g).unknown = g.unknown)
    (above : w.Absorbs v) :
    Absorbs { w with flags := f w.flags } { v with flags := f v.flags } := by
  obtain ⟨flags, strings, labels⟩ := (left.absorbs_iff right).mp above
  refine ((left.reflag (any _) (unknown _)).absorbs_iff (right.reflag (any _) (unknown _))).mpr
    ⟨?_, ?_, labels⟩
  · rw [additive, flags]
  · intro s known
    rw [any]
    exact strings s known

/-! ### What is below exactly one string -/

/-- A value that is below exactly one string and may be an actual value is that string. -/
theorem exactString?_of_absorbs (left : w.Plain) (right : v.Plain) (above : w.Absorbs v)
    {s : String} (known : w.exactString? = some s) (present : v.maybePresent = true) :
    v.exactString? = some s := by
  obtain ⟨flags, strings, labels⟩ := (left.absorbs_iff right).mp above
  unfold exactString? at known ⊢
  split at known
  · cases known
  · rename_i none
    simp only [Bool.or_eq_true, not_or, Bool.not_eq_true] at none
    obtain ⟨⟨noPrimitive, _⟩, noObject⟩ := none
    have noPrimitiveBelow : v.flags.somePrimitive = false := by
      rw [← flags] at noPrimitive
      simp only [Flags.somePrimitive, Flags.join, Bool.or_eq_false_iff] at noPrimitive ⊢
      simp_all
    have noObjectBelow : v.maybeObject = false := by
      simp only [maybeObject, Bool.not_eq_false', FinSet.isEmpty_eq_true_iff] at noObject ⊢
      exact fun label member => noObject label (labels label member)
    have string : v.string.isSome = true := by
      simpa [maybePresent, maybePrimitive, noPrimitiveBelow, noObjectBelow] using present
    obtain ⟨t, known'⟩ := Option.isSome_iff_exists.mp string
    have same : w.string = some t := by
      rcases strings t known' with same | any
      · exact same
      · simp [Flags.somePrimitive, any] at noPrimitive
    simp [noPrimitiveBelow, right.known, noObjectBelow, known', ← known, same]

theorem maybeString_of_absorbs (left : w.Plain) (right : v.Plain) (above : w.Absorbs v)
    (string : v.maybeString = true) : w.maybeString = true := by
  obtain ⟨flags, strings, -⟩ := (left.absorbs_iff right).mp above
  unfold maybeString at string ⊢
  rcases Bool.or_eq_true _ _ ▸ string with any | known
  · rw [← flags]
    simp [Flags.join, any]
  · obtain ⟨s, known⟩ := Option.isSome_iff_exists.mp known
    rcases strings s known with same | any
    · simp [same]
    · simp [any]

theorem maybeObject_of_absorbs (left : w.Plain) (right : v.Plain) (above : w.Absorbs v)
    (object : v.maybeObject = true) : w.maybeObject = true := by
  obtain ⟨-, -, labels⟩ := (left.absorbs_iff right).mp above
  simp only [maybeObject, Bool.not_eq_true', ← Bool.not_eq_true, FinSet.isEmpty_eq_true_iff]
    at object ⊢
  exact fun empty => object fun label member => empty label (labels label member)

theorem maybePrimitive_of_absorbs (left : w.Plain) (right : v.Plain) (above : w.Absorbs v)
    (primitive : v.maybePrimitive = true) : w.maybePrimitive = true := by
  obtain ⟨flags, strings, -⟩ := (left.absorbs_iff right).mp above
  unfold maybePrimitive at primitive ⊢
  rcases Bool.or_eq_true _ _ ▸ primitive with flag | known
  · rw [← flags]
    simp only [Flags.somePrimitive, Flags.join, Bool.or_eq_true] at flag ⊢
    grind
  · obtain ⟨s, known⟩ := Option.isSome_iff_exists.mp known
    rcases strings s known with same | any
    · simp [same]
    · simp [Flags.somePrimitive, any]

end Plain

end Value

end ScriptHeap
