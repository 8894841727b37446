import ScriptHeap.Proofs.Value.Plain

/-!
# A split value covers its parts

A value that has been split still describes the whole: its own fields allow for whatever one of its
parts allows for (`Value.Summary`). The fields and the parts are changed apart from each other, and
so this is an invariant to be kept by each operation. It is kept at every depth at once
(`Value.Layered`), because a part that is taken out of a value is a value of its own.

Being unknown is where the two sides may disagree: an unknown value promises nothing of its parts,
but then it has no fields of its own either.
-/

namespace ScriptHeap

/-! ### Flags -/

/-- The second flags allow for every primitive that the first allow for. -/
structure Flags.PrimitivesIn (f g : Flags) : Prop where
  undefined : f.undefined = true → g.undefined = true
  null : f.null = true → g.null = true
  isTrue : f.isTrue = true → g.isTrue = true
  isFalse : f.isFalse = true → g.isFalse = true
  number : f.number = true → g.number = true
  anyString : f.anyString = true → g.anyString = true

namespace Flags.PrimitivesIn

variable {f g h : Flags}

theorem refl (f : Flags) : f.PrimitivesIn f := ⟨id, id, id, id, id, id⟩

theorem trans (first : f.PrimitivesIn g) (second : g.PrimitivesIn h) : f.PrimitivesIn h where
  undefined := second.undefined ∘ first.undefined
  null := second.null ∘ first.null
  isTrue := second.isTrue ∘ first.isTrue
  isFalse := second.isFalse ∘ first.isFalse
  number := second.number ∘ first.number
  anyString := second.anyString ∘ first.anyString

/-- Joined flags allow for the primitives of the left side. -/
theorem left_join {any : Bool} (anyString : f.anyString = true → any = true) :
    f.PrimitivesIn { f.join g with anyString := any } := by
  constructor <;> simp_all [Flags.join]

/-- What allows for the primitives of both sides allows for those of the joined flags. -/
theorem join {any : Bool} (left : f.PrimitivesIn h) (right : g.PrimitivesIn h)
    (anyString : any = true → h.anyString = true) :
    PrimitivesIn { f.join g with anyString := any } h where
  undefined := fun flag => (Bool.or_eq_true_iff.mp flag).elim left.undefined right.undefined
  null := fun flag => (Bool.or_eq_true_iff.mp flag).elim left.null right.null
  isTrue := fun flag => (Bool.or_eq_true_iff.mp flag).elim left.isTrue right.isTrue
  isFalse := fun flag => (Bool.or_eq_true_iff.mp flag).elim left.isFalse right.isFalse
  number := fun flag => (Bool.or_eq_true_iff.mp flag).elim left.number right.number
  anyString := anyString

end Flags.PrimitivesIn

namespace Value

/-! ### Strings -/

section

variable {any : Bool} {s t : Option String} {r : String}

theorem joinStrings_of_any (flag : any = true) : (joinStrings any s t).1 = true := by
  simp [joinStrings, flag]

theorem joinStrings_of_left (known : s = some r) :
    (joinStrings any s t).2 = some r ∨ (joinStrings any s t).1 = true := by
  unfold joinStrings
  cases t <;> grind

theorem any_of_joinStrings (flag : (joinStrings any s t).1 = true) :
    any = true ∨ ∃ x y, s = some x ∧ t = some y ∧ x ≠ y := by
  unfold joinStrings at flag
  cases s <;> cases t <;> grind

theorem string_of_joinStrings (known : (joinStrings any s t).2 = some r) :
    s = some r ∨ t = some r := by
  unfold joinStrings at known
  cases s <;> cases t <;> grind

end

/-! ### What a value allows for -/

/-- The fields of a value allow for everything that those of a part allow for, which is known. -/
structure Allows (v part : Value) : Prop where
  known : part.isUnknown = false
  primitives : part.flags.PrimitivesIn v.flags
  string : part.StringBelow v
  labels : ∀ label ∈ part.labels, label ∈ v.labels

namespace Allows

variable {u v w : Value}

theorem refl (known : v.isUnknown = false) : v.Allows v :=
  ⟨known, .refl _, fun _ => .inl, fun _ => id⟩

/-- A join allows for what its left side allows for. -/
theorem join_left (formed : u.WellFormed) (knownLeft : u.isUnknown = false)
    (knownRight : v.isUnknown = false) (allows : u.Allows w) : (u.join v).Allows w := by
  rw [join_eq formed knownLeft knownRight]
  have any : u.flags.anyString = true →
      (joinStrings (u.flags.join v.flags).anyString u.string v.string).1 = true :=
    fun flag => joinStrings_of_any (by simp [Flags.join, flag])
  refine ⟨allows.known, allows.primitives.trans (.left_join any), ?_, ?_⟩
  · intro s held
    rcases allows.string s held with same | flag
    · exact joinStrings_of_left same
    · exact .inr (any flag)
  · exact fun label member => FinSet.mem_union.mpr (.inl (allows.labels label member))

/-- A join allows for what its right side allows for. -/
theorem join_right (formedLeft : u.WellFormed) (formedRight : v.WellFormed)
    (knownLeft : u.isUnknown = false) (knownRight : v.isUnknown = false) (allows : v.Allows w) :
    (u.join v).Allows w := by
  rw [join_comm formedLeft formedRight]
  exact allows.join_left formedRight knownRight knownLeft

/-- What allows for two values allows for their join. -/
theorem join (formed : v.WellFormed) (left : u.Allows v) (right : u.Allows w) :
    u.Allows (v.join w) := by
  have joined := join_eq formed left.known right.known
  refine ⟨by simp [isUnknown_join, left.known, right.known], ?_, ?_, ?_⟩
  · rw [joined]
    refine left.primitives.join right.primitives fun flag => ?_
    rcases any_of_joinStrings flag with any | ⟨x, y, first, second, different⟩
    · have either : v.flags.anyString = true ∨ w.flags.anyString = true := by
        simpa [Flags.join] using any
      exact either.elim left.primitives.anyString right.primitives.anyString
    · -- Two different strings cannot both be the only one that `u` knows.
      rcases left.string x first with same | any
      · rcases right.string y second with same' | any
        · exact absurd (Option.some.inj (same.symm.trans same')) different
        · exact any
      · exact any
  · intro s held
    rw [joined] at held
    exact (string_of_joinStrings held).elim (left.string s) (right.string s)
  · intro label member
    exact (mem_labels_of_join member).elim (left.labels label) (right.labels label)

/-- A change of both values that leaves strings and flags alone, and what is common to labels. -/
theorem relabeled {v' w' : Value} (allows : v.Allows w) (flags : v'.flags = v.flags)
    (flags' : w'.flags = w.flags) (string : v'.string = v.string) (string' : w'.string = w.string)
    (labels : ∀ label ∈ w'.labels, label ∈ v'.labels) : v'.Allows w' where
  known := by simpa [isUnknown, flags'] using allows.known
  primitives := by simpa [flags, flags'] using allows.primitives
  string := by simpa [StringBelow, string, string', flags] using allows.string
  labels := labels

end Allows

/-! ### Summaries -/

/-- The fields of a value fit together, and those of a known value allow for each of its parts. -/
structure Summary (v : Value) : Prop where
  oneString : v.flags.anyString = true → v.string = Option.none
  unknown : v.isUnknown = true →
    v.flags.somePrimitive = false ∧ v.string = Option.none ∧ v.labels = ∅
  parts : v.isUnknown = false → ∀ part ∈ v.parts, v.Allows part.2

namespace Summary

variable {v w : Value}

/-- A known value that is not split. -/
theorem of_known (known : v.isUnknown = false) (whole : v.parts = [])
    (oneString : v.flags.anyString = true → v.string = Option.none) : v.Summary where
  oneString := oneString
  unknown := by simp [known]
  parts := by simp [whole]

/-- The fields of a value with fewer parts. -/
theorem of_parts (summary : v.Summary) (flags : w.flags = v.flags) (string : w.string = v.string)
    (labels : w.labels = v.labels) (parts : ∀ part ∈ w.parts, part ∈ v.parts) : w.Summary where
  oneString := by simpa [flags, string] using summary.oneString
  unknown := by simpa [isUnknown, flags, string, labels] using summary.unknown
  parts := by
    intro known part member
    have allows := summary.parts (by simpa [isUnknown, flags] using known) part (parts part member)
    exact allows.relabeled flags rfl string rfl (by simpa [labels] using allows.labels)

/-- The flags of the slot that holds the value may change. -/
theorem reflag (summary : v.Summary) {flags : Flags} (primitives : v.flags.PrimitivesIn flags)
    (any : flags.anyString = v.flags.anyString)
    (some : flags.somePrimitive = v.flags.somePrimitive)
    (unknown : flags.unknown = v.flags.unknown) : Summary { v with flags } where
  oneString := fun flag => summary.oneString (any.symm.trans flag)
  unknown := by
    intro isUnknown
    obtain ⟨none, rest⟩ := summary.unknown (unknown.symm.trans isUnknown)
    exact ⟨some.trans none, rest⟩
  parts := by
    intro known part member
    have allows := summary.parts (unknown.symm.trans known) part member
    exact ⟨allows.known, allows.primitives.trans primitives,
      fun s held => (allows.string s held).imp_right primitives.anyString, allows.labels⟩

/-- A change of each part for itself and of the labels of the value alike. -/
theorem of_mapped {f : Value → Value} (summary : v.Summary) (flags : w.flags = v.flags)
    (string : w.string = v.string) (parts : w.parts = Assoc.mapValues f v.parts)
    (labels : v.labels = ∅ → w.labels = ∅)
    (each : v.isUnknown = false → ∀ part ∈ v.parts, v.Allows part.2 → w.Allows (f part.2)) :
    w.Summary where
  oneString := by simpa [flags, string] using summary.oneString
  unknown := by
    intro isUnknown
    obtain ⟨none, noString, noLabels⟩ :=
      summary.unknown (by simpa [Value.isUnknown, flags] using isUnknown)
    exact ⟨by rw [flags, none], by rw [string, noString], labels noLabels⟩
  parts := by
    intro known part member
    have known : v.isUnknown = false := by simpa [Value.isUnknown, flags] using known
    rw [parts] at member
    obtain ⟨old, oldMember, rfl⟩ := List.mem_map.mp member
    exact each known old oldMember (summary.parts known old oldMember)

/-- A join of values whose fields cover their parts is such a value. -/
theorem join (formedLeft : v.WellFormed) (formedRight : w.WellFormed) (left : v.Summary)
    (right : w.Summary) : (v.join w).Summary := by
  cases unknownOne : v.isUnknown || w.isUnknown with
  | true =>
      rw [join_unknown unknownOne]
      exact ⟨nofun, fun _ => ⟨rfl, rfl, rfl⟩, nofun⟩
  | false =>
      obtain ⟨knownLeft, knownRight⟩ := Bool.or_eq_false_iff.mp unknownOne
      have known : (v.join w).isUnknown = false := by rw [isUnknown_join, unknownOne]
      have parts : (v.join w).parts = joinedParts v w := by
        rw [join_eq formedLeft knownLeft knownRight]
      have first : ∀ part ∈ v.parts, (v.join w).Allows part.2 := fun part member =>
        (left.parts knownLeft part member).join_left formedLeft knownLeft knownRight
      have second : ∀ part ∈ w.parts, (v.join w).Allows part.2 := fun part member =>
        (right.parts knownRight part member).join_right formedLeft formedRight knownLeft knownRight
      refine ⟨(formedLeft.join formedRight).oneString, by simp [known], fun _ => ?_⟩
      rw [parts]
      refine forall_joinedParts formedRight.sorted first second ?_
      intro token p q foundLeft foundRight
      exact (first _ (Assoc.mem_of_find?_eq_some foundLeft)).join (formedLeft.part foundLeft)
        (second _ (Assoc.mem_of_find?_eq_some foundRight))

end Summary

/-! ### Splitting -/

/-- A join of values, from a start on, that ends up known allows for each of them. -/
theorem allows_foldl_join {α : Type} {f : α → Value} (items : List α) {start : Value}
    (formedStart : start.WellFormed) (formed : ∀ item ∈ items, (f item).WellFormed)
    (known : (items.foldl (fun v item => v.join (f item)) start).isUnknown = false) :
    (∀ w, start.Allows w → (items.foldl (fun v item => v.join (f item)) start).Allows w) ∧
      ∀ item ∈ items, (items.foldl (fun v item => v.join (f item)) start).Allows (f item) := by
  induction items generalizing start with
  | nil => exact ⟨fun _ => id, nofun⟩
  | cons item rest ih =>
      have all := known
      rw [isUnknown_foldl_join, List.any_cons, Bool.or_eq_false_iff, Bool.or_eq_false_iff] at all
      obtain ⟨knownStart, knownItem, _⟩ := all
      have formedItem := formed item List.mem_cons_self
      obtain ⟨keeps, others⟩ := ih (formedStart.join formedItem)
        (fun other member => formed other (List.mem_cons_of_mem _ member)) known
      refine ⟨fun w allows => keeps w (allows.join_left formedStart knownStart knownItem), ?_⟩
      refine List.forall_mem_cons.mpr ⟨keeps _ ?_, others⟩
      exact (Allows.refl knownItem).join_right formedStart formedItem knownStart knownItem

theorem Summary.foldl_join {α : Type} {f : α → Value} (items : List α) {start : Value}
    (formedStart : start.WellFormed) (formed : ∀ item ∈ items, (f item).WellFormed)
    (summary : start.Summary) (summaries : ∀ item ∈ items, (f item).Summary) :
    (items.foldl (fun v item => v.join (f item)) start).Summary := by
  induction items generalizing start with
  | nil => exact summary
  | cons item rest ih =>
      have formedItem := formed item List.mem_cons_self
      have joined := summary.join formedStart formedItem (summaries item List.mem_cons_self)
      exact ih (formedStart.join formedItem)
        (fun other member => formed other (List.mem_cons_of_mem _ member)) joined
        fun other member => summaries other (List.mem_cons_of_mem _ member)

theorem Summary.collapse {v : Value} (summary : v.Summary) : v.collapse.Summary :=
  summary.of_parts rfl rfl rfl nofun

/-- The join of some parts covers each of them, whether they are split or not. -/
theorem Summary.partitioned {parts : FinMap Token Value}
    (formed : ∀ part ∈ parts.toList, part.2.WellFormed)
    (summaries : ∀ part ∈ parts.toList, part.2.Summary) : (partitioned parts).Summary := by
  have values : ∀ part ∈ parts.values, part.WellFormed ∧ part.Summary := by
    intro part member
    obtain ⟨entry, entryMember, rfl⟩ := List.mem_map.mp member
    exact ⟨formed entry entryMember, summaries entry entryMember⟩
  have formedEach : ∀ part ∈ parts.values, part.collapse.WellFormed :=
    fun part member => (values part member).1.collapse
  have formedStart : Value.none.WellFormed := .ofFlags {}
  have whole := Summary.foldl_join parts.values formedStart formedEach
    (.of_known rfl rfl nofun) fun part member => (values part member).2.collapse
  refine ⟨whole.oneString, whole.unknown, fun known part member => ?_⟩
  have allows := (allows_foldl_join parts.values formedStart formedEach known).2 part.2
    (List.mem_map.mpr ⟨part, member, rfl⟩)
  exact allows.relabeled rfl rfl rfl rfl allows.labels

/-! ### Labels -/

theorem Summary.notForeign {v : Value} (summary : v.Summary) : v.notForeign.Summary where
  oneString := summary.oneString
  unknown := by
    intro unknown
    obtain ⟨none, noString, noLabels⟩ := summary.unknown unknown
    refine ⟨none, noString, ?_⟩
    show v.labels.filter _ = ∅
    rw [noLabels]
    rfl
  parts := nofun

theorem Summary.relabel {v : Value} (r : Relabeling) (summary : v.Summary) :
    (v.relabel r).Summary := by
  obtain ⟨flags, string, labels, parts⟩ := v
  refine summary.of_mapped rfl rfl (relabelParts_eq r parts) ?_ ?_
  · rintro rfl
    rfl
  · rintro _ ⟨token, flags', string', labels', parts'⟩ _ allows
    refine allows.relabeled rfl rfl rfl rfl fun label member => ?_
    obtain ⟨old, oldMember, image⟩ := FinSet.mem_bind.mp member
    exact FinSet.mem_bind.mpr ⟨old, allows.labels old oldMember, image⟩

theorem mem_replaced {labels : LabelSet} {old new label : Label} :
    (label ∈ if labels.contains old then (labels.erase old).insert new else labels) ↔
      label ∈ labels ∧ label ≠ old ∨ old ∈ labels ∧ label = new := by
  have contains : labels.contains old = true ↔ old ∈ labels := Iff.rfl
  split
  · rename_i present
    simp only [FinSet.mem_insert, FinSet.mem_erase, contains.mp present, true_and]
    rw [or_comm, and_comm]
  · rename_i missing
    have missing : ¬ old ∈ labels := missing
    constructor
    · exact fun member => .inl ⟨member, fun same => missing (same ▸ member)⟩
    · rintro (⟨member, _⟩ | ⟨present, _⟩)
      · exact member
      · exact absurd present missing

theorem Summary.replaceLabel {v : Value} (old new : Label) (summary : v.Summary) :
    (v.replaceLabel old new).Summary := by
  cases unknown : v.isUnknown with
  | true =>
      rw [replaceLabel_of_unknown old new unknown]
      exact summary
  | false =>
      rw [replaceLabel_of_known old new unknown]
      refine summary.of_mapped rfl rfl rfl ?_ ?_
      · intro empty
        rw [empty]
        rfl
      · rintro _ ⟨token, part⟩ _ allows
        rw [replaceLabel_of_known old new allows.known]
        refine allows.relabeled rfl rfl rfl rfl fun label member => ?_
        rw [mem_replaced] at member ⊢
        exact member.imp (.imp_left (allows.labels label)) (.imp_left (allows.labels old))

/-! ### Every depth -/

/-- The fields of a value cover its parts, and so it is with each of its parts. -/
inductive Layered : Value → Prop where
  | intro (v : Value) (summary : v.Summary) (parts : ∀ part ∈ v.parts, Layered part.2) : Layered v

namespace Layered

variable {v w : Value}

theorem summary (layered : v.Layered) : v.Summary := by
  cases layered
  assumption

theorem part (layered : v.Layered) {part : Token × Value} (member : part ∈ v.parts) :
    part.2.Layered := by
  cases layered with
  | intro _ _ parts => exact parts part member

/-- A value that is not split. -/
theorem of_whole (summary : v.Summary) (whole : v.parts = []) : v.Layered :=
  .intro v summary (by simp [whole])

theorem ofFlags {flags : Flags} (known : flags.unknown = false) : (Value.ofFlags flags).Layered :=
  of_whole (.of_known known rfl fun _ => rfl) rfl

theorem reflag (layered : v.Layered) {flags : Flags} (primitives : v.flags.PrimitivesIn flags)
    (any : flags.anyString = v.flags.anyString)
    (some : flags.somePrimitive = v.flags.somePrimitive)
    (unknown : flags.unknown = v.flags.unknown) : Layered { v with flags } :=
  .intro _ (layered.summary.reflag primitives any some unknown) fun _ => layered.part

theorem join (left : v.Layered) :
    ∀ {w : Value}, w.Layered → v.WellFormed → w.WellFormed → (v.join w).Layered := by
  induction left with
  | intro v summary parts ih =>
      intro w right formedLeft formedRight
      refine .intro _ (summary.join formedLeft formedRight right.summary) ?_
      cases unknownOne : v.isUnknown || w.isUnknown with
      | true =>
          rw [join_unknown unknownOne]
          exact nofun
      | false =>
          obtain ⟨knownLeft, knownRight⟩ := Bool.or_eq_false_iff.mp unknownOne
          rw [join_eq formedLeft knownLeft knownRight]
          refine forall_joinedParts formedRight.sorted parts (fun part => right.part) ?_
          intro token p q foundLeft foundRight
          exact ih _ (Assoc.mem_of_find?_eq_some foundLeft)
            (right.part (Assoc.mem_of_find?_eq_some foundRight)) (formedLeft.part foundLeft)
            (formedRight.part foundRight)

/-- A change of each part for itself. -/
theorem of_mapped {f : Value → Value} (summary : w.Summary)
    (parts : w.parts = Assoc.mapValues f v.parts)
    (each : ∀ part ∈ v.parts, (f part.2).Layered) : w.Layered := by
  refine .intro w summary fun part member => ?_
  rw [parts] at member
  obtain ⟨old, oldMember, rfl⟩ := List.mem_map.mp member
  exact each old oldMember

theorem relabel (r : Relabeling) (layered : v.Layered) : (v.relabel r).Layered := by
  induction layered with
  | intro v summary _ ih =>
      refine of_mapped (summary.relabel r) ?_ ih
      cases v
      exact relabelParts_eq r _

theorem replaceLabel (old new : Label) (layered : v.Layered) :
    (v.replaceLabel old new).Layered := by
  induction layered with
  | intro v summary parts ih =>
      cases unknown : v.isUnknown with
      | true =>
          rw [replaceLabel_of_unknown old new unknown]
          exact .intro v summary parts
      | false =>
          refine of_mapped (summary.replaceLabel old new) ?_ ih
          rw [replaceLabel_of_known old new unknown]

end Layered

/-- In a value that is built, the fields cover the parts at every depth. -/
theorem Built.layered {v : Value} (built : v.Built) : v.Layered := by
  induction built with
  | none | noneModified | absent | absentModified | undefined | null | anyBool | anyNumber
  | anyString | anyPrimitive => exact .ofFlags rfl
  | unknown => exact .of_whole ⟨nofun, fun _ => ⟨rfl, rfl, rfl⟩, nofun⟩ rfl
  | bool b => cases b <;> exact .ofFlags rfl
  | ofString s => exact .of_whole (.of_known rfl rfl nofun) rfl
  | objects labels | objectsOnly => exact .of_whole (.of_known rfl rfl nofun) rfl
  | partitioned parts built layered =>
      exact .intro _ (.partitioned (fun part member => (built part member).wellFormed)
        fun part member => (layered part member).summary) layered
  | join first second left right => exact left.join right first.wellFormed second.wellFormed
  | joinAbsent _ layered | joinModified _ layered | notModified _ layered | notAbsent _ layered
  | withoutAttributes _ layered | setDontDelete _ layered | setDontEnum _ layered
  | setReadOnly _ layered => exact layered.reflag ⟨id, id, id, id, id, id⟩ rfl rfl rfl
  | notForeign _ layered => exact .of_whole layered.summary.notForeign rfl
  | part _ found layered => exact layered.part (Assoc.mem_of_find?_eq_some found)
  | collapse _ layered => exact .of_whole layered.summary.collapse rfl
  | @removeParts v nodes _ layered =>
      have fewer : ∀ part ∈ (v.removeParts nodes).parts, part ∈ v.parts :=
        fun part member => (List.mem_filter.mp member).1
      exact .intro _ (layered.summary.of_parts rfl rfl rfl fewer)
        fun part member => layered.part (fewer part member)
  | relabel r _ layered => exact layered.relabel r
  | replaceLabel old new _ layered => exact layered.replaceLabel old new

/-- The value itself, its parts, their parts and so on. -/
inductive Inner (v : Value) : Value → Prop where
  | self : Inner v v
  | part {u part : Value} {token : Token} (inner : Inner v u) (found : u.part? token = some part) :
      Inner v part

theorem Layered.inner {u v : Value} (layered : v.Layered) (inner : v.Inner u) : u.Layered := by
  induction inner with
  | self => exact layered
  | part _ found ih => exact ih.part (Assoc.mem_of_find?_eq_some found)

/-- At every depth of a value that is built, any string and a known string exclude each other, an
    unknown value has no fields of its own, and a known one covers its parts. -/
theorem summary_of_inner {u v : Value} (built : v.Built) (inner : v.Inner u) : u.Summary :=
  (built.layered.inner inner).summary

/-- Two nested splittings that disagree at the innermost part: where they meet it may be any string,
    and so may the part that it belongs to. -/
theorem nestedSplit_summary :
    ∃ part innermost,
      ((nestedSplit "x").join (nestedSplit "y")).Built ∧
      ((nestedSplit "x").join (nestedSplit "y")).part? (.property ⟨0, 1⟩ 2 (.name "p")) =
        some part ∧
      part.part? (.type ⟨0, 0⟩ 1 .string) = some innermost ∧ innermost = anyString ∧
      part.Summary ∧ part.Allows innermost := by
  have built : ((nestedSplit "x").join (nestedSplit "y")).Built :=
    .join (nestedSplit_built "x") (nestedSplit_built "y")
  obtain ⟨part, found⟩ : ∃ part, ((nestedSplit "x").join (nestedSplit "y")).part?
      (.property ⟨0, 1⟩ 2 (.name "p")) = some part := ⟨_, rfl⟩
  have summary : part.Summary := summary_of_inner built (.part .self found)
  cases found
  exact ⟨_, anyString, built, rfl, by decide, rfl, summary,
    summary.parts (by decide) (.type ⟨0, 0⟩ 1 .string, anyString) (by decide)⟩

end Value

end ScriptHeap
