import ScriptHeap.Proofs.Transfer.Values
import ScriptHeap.Proofs.Value.Plain

/-!
# The order of contents

Contents are below others when each register and each slot is absorbed by that of the others
(`Contents.Below`). Shapes are compared by what can be read of them: which keys are listed makes no
difference. Reads and writes keep the order as long as all values are plain, no label is written
that the contents below lack, and a write that replaces above replaces below as well.
-/

namespace ScriptHeap

theorem Value.closed_plain (label : Label) : Closed Plain label where
  flags := fun _ => .ofFlags
  string := .ofString
  object := .object label
  join := .join
  reflag := fun plain any unknown => plain.reflag any unknown
  collapse := fun plain => (collapse_of_whole plain.whole).symm ▸ plain

theorem Constant.value_plain (c : Constant) : c.value.Plain := by
  cases c with
  | string s => exact .ofString s
  | boolean b => cases b <;> exact .ofFlags rfl
  | undefined | null | number => exact .ofFlags rfl

namespace Value.Plain

variable {o p v w : Value}

/-- Writing in place of a value, or joined to it, keeps the order as long as the greater write is
    not the only one that replaces. -/
theorem absorbs_stored (plainOld : o.Plain) (plainOld' : p.Plain) (plain : v.Plain)
    (plain' : w.Plain) (old : p.Absorbs o) (new : w.Absorbs v) {strong strong' : Bool}
    (implied : strong' = true → strong = true) :
    Absorbs (if strong' = true then w else p.join w) (if strong = true then v else o.join v) := by
  have joined : (p.join w).Absorbs v := absorbs_join_right plain plainOld' plain' new
  cases strong' with
  | true => simpa [implied rfl] using new
  | false =>
      cases strong with
      | true => exact joined
      | false =>
          exact (absorbs_join_iff (plainOld'.join plain') plainOld plain).mpr
            ⟨absorbs_join_left plainOld plainOld' plain' old, joined⟩

theorem joinModified (plain : v.Plain) : v.joinModified.Plain := plain.reflag rfl rfl

theorem withoutAttributes (plain : v.Plain) : v.withoutAttributes.Plain := plain.reflag rfl rfl

theorem joinAbsent (plain : v.Plain) : v.joinAbsent.Plain := plain.reflag rfl rfl

theorem absorbs_joinModified (left : w.Plain) (right : v.Plain) (above : w.Absorbs v) :
    w.joinModified.Absorbs v.joinModified :=
  absorbs_reflag left right (f := fun g => { g with modified := true })
    (fun _ _ => by simp [Flags.join]) (fun _ => rfl) (fun _ => rfl) above

theorem absorbs_joinAbsent (left : w.Plain) (right : v.Plain) (above : w.Absorbs v) :
    w.joinAbsent.Absorbs v.joinAbsent :=
  absorbs_reflag left right (f := fun g => { g with absent := true })
    (fun _ _ => by simp [Flags.join]) (fun _ => rfl) (fun _ => rfl) above

theorem joinAbsent_absorbs (plain : v.Plain) : v.joinAbsent.Absorbs v :=
  (plain.joinAbsent.absorbs_iff plain).mpr
    ⟨by simp [Value.joinAbsent, Flags.join], fun _ known => .inl known, fun _ member => member⟩

theorem absorbs_withoutAttributes (left : w.Plain) (right : v.Plain) (above : w.Absorbs v) :
    w.withoutAttributes.Absorbs v.withoutAttributes :=
  absorbs_reflag left right (f := Flags.withoutAttributes)
    (fun _ _ => by simp [Flags.join, Flags.withoutAttributes]) (fun _ => rfl) (fun _ => rfl) above

/-- Reading a slot keeps the order. -/
theorem absorbs_readAs (left : w.Plain) (right : v.Plain) (above : w.Absorbs v) :
    (State.readAs w).Absorbs (State.readAs v) := by
  have undefined : Value.undefined.Plain := .ofFlags rfl
  let present (u : Value) : Value := u.notAbsent.notModified.withoutAttributes
  have plainPresent : ∀ {u : Value}, u.Plain → (present u).Plain := fun plain =>
    reflag plain rfl rfl
  have presents : (present w).Absorbs (present v) :=
    absorbs_reflag left right
      (f := fun g => Flags.withoutAttributes { g with absent := false, modified := false })
      (fun _ _ => by simp [Flags.join, Flags.withoutAttributes]) (fun _ => rfl) (fun _ => rfl) above
  have absent : v.maybeAbsent = true → w.maybeAbsent = true := by
    obtain ⟨flags, -⟩ := (left.absorbs_iff right).mp above
    intro holds
    have own : (w.flags.absent || v.flags.absent) = w.flags.absent :=
      congrArg Flags.absent flags
    rw [show v.flags.absent = true from holds, Bool.or_true] at own
    exact own.symm
  have upper : (State.readAs w).Absorbs (present v) := by
    unfold State.readAs
    dsimp only
    split
    · exact absorbs_join_left (plainPresent right) (plainPresent left) undefined presents
    · exact presents
  unfold State.readAs at upper ⊢
  dsimp only at upper ⊢
  by_cases holds : v.maybeAbsent = true
  · rw [if_pos (absent holds)] at upper ⊢
    rw [if_pos holds]
    exact (absorbs_join_iff ((plainPresent left).join undefined) (plainPresent right)
      undefined).mpr ⟨upper, join_absorbs (plainPresent left).formed undefined.formed⟩
  · rw [if_neg holds]
    exact upper

theorem maybeString_of_exactString? {s : String} (known : v.exactString? = some s) :
    v.maybeString = true := by
  unfold exactString? at known
  split at known
  · cases known
  · simp [maybeString, known]

theorem sum_of_strings {s t : String} (left : v.exactString? = some s)
    (right : w.exactString? = some t) : BinaryOperator.sum v w = .ofString (s ++ t) := by
  simp [BinaryOperator.sum, left, right]

theorem sum_of_no_strings (missing : ∀ s t, v.exactString? = some s → w.exactString? ≠ some t) :
    BinaryOperator.sum v w =
      if v.maybeString || w.maybeString || v.maybeObject || w.maybeObject then
        Value.anyString.join .anyNumber
      else .anyNumber := by
  unfold BinaryOperator.sum
  cases left : v.exactString? with
  | none => rfl
  | some s =>
      cases right : w.exactString? with
      | none => rfl
      | some t => exact absurd right (missing s t left)

/-- A sum keeps the order, unless it is of known strings that an operand below them is not. -/
theorem absorbs_sum {l r l' r' : Value} (plainLeft : l.Plain) (plainRight : r.Plain)
    (plainLeft' : l'.Plain) (plainRight' : r'.Plain) (left : l'.Absorbs l) (right : r'.Absorbs r)
    (present : ∀ s t, l'.exactString? = some s → r'.exactString? = some t →
      l.maybePresent = true ∧ r.maybePresent = true) :
    (BinaryOperator.sum l' r').Absorbs (BinaryOperator.sum l r) := by
  by_cases both : ∃ s t, l'.exactString? = some s ∧ r'.exactString? = some t
  · obtain ⟨s, t, known, known'⟩ := both
    obtain ⟨presentLeft, presentRight⟩ := present s t known known'
    rw [sum_of_strings known known',
      sum_of_strings (exactString?_of_absorbs plainLeft' plainLeft left known presentLeft)
        (exactString?_of_absorbs plainRight' plainRight right known' presentRight)]
    exact absorbs_self (.ofString _)
  · rw [sum_of_no_strings fun s t known known' => both ⟨s, t, known, known'⟩]
    have number : Value.anyNumber.Plain := .ofFlags rfl
    have strings : (l.maybeString || r.maybeString || l.maybeObject || r.maybeObject) = true →
        (l'.maybeString || r'.maybeString || l'.maybeObject || r'.maybeObject) = true := by
      simp only [Bool.or_eq_true]
      rintro (((string | string) | object) | object)
      · exact .inl (.inl (.inl (maybeString_of_absorbs plainLeft' plainLeft left string)))
      · exact .inl (.inl (.inr (maybeString_of_absorbs plainRight' plainRight right string)))
      · exact .inl (.inr (maybeObject_of_absorbs plainLeft' plainLeft left object))
      · exact .inr (maybeObject_of_absorbs plainRight' plainRight right object)
    by_cases exactly : ∃ s t, l.exactString? = some s ∧ r.exactString? = some t
    · obtain ⟨s, t, known, known'⟩ := exactly
      have string := strings (by simp [maybeString_of_exactString? known])
      rw [sum_of_strings known known', if_pos string]
      exact (absorbs_iff (.join (.ofFlags rfl) number) (.ofString _)).mpr
        ⟨rfl, fun _ _ => .inr rfl, nofun⟩
    · rw [sum_of_no_strings fun s t known known' => exactly ⟨s, t, known, known'⟩]
      by_cases string : (l.maybeString || r.maybeString || l.maybeObject || r.maybeObject) = true
      · rw [if_pos string, if_pos (strings string)]
        rfl
      · rw [if_neg string]
        split <;> rfl

/-- An operator keeps the order, unless it adds known strings that an operand below is not. -/
theorem absorbs_operator {op : BinaryOperator} {l r l' r' : Value} (plainLeft : l.Plain)
    (plainRight : r.Plain) (plainLeft' : l'.Plain) (plainRight' : r'.Plain) (left : l'.Absorbs l)
    (right : r'.Absorbs r)
    (present : op = .add → ∀ s t, l'.exactString? = some s → r'.exactString? = some t →
      l.maybePresent = true ∧ r.maybePresent = true) :
    (op.value l' r').Absorbs (op.value l r) := by
  cases op with
  | add => exact absorbs_sum plainLeft plainRight plainLeft' plainRight' left right (present rfl)
  | sub | mul | div | eq | strictEq | lt => exact absorbs_self (.ofFlags rfl)

end Value.Plain

/-! ### The order -/

/-- Joining the second shape to the first changes nothing that can be read. -/
structure Shape.CoversReads (t s : Shape) : Prop where
  slots : ∀ slot, (t.join s).getSlot slot = t.getSlot slot
  scope : (t.join s).scope = t.scope

namespace Shape

theorem getSlot_set (shape : Shape) (key : Key) (v : Value) (slot : Slot) :
    (shape.set key v).getSlot slot = if slot = .property key then v else shape.getSlot slot := by
  cases slot with
  | property other =>
      show (shape.set key v).get other = _
      rw [get_set]
      simp [getSlot]
  | defaultNumeric | defaultOther | internalValue | internalPrototype => rfl

/-- A write of unknown name leaves the internal slots alone. -/
theorem getSlot_storeAny (v : Value) (shape : Shape) (slot : Slot) :
    (shape.storeAny v).getSlot slot =
      if slot = .internalValue ∨ slot = .internalPrototype then shape.getSlot slot
      else (shape.getSlot slot).join v := by
  cases slot with
  | property key => exact get_storeAny v shape key
  | defaultNumeric | defaultOther | internalValue | internalPrototype => rfl

namespace CoversReads

variable {s t : Shape} {v w : Value}

theorem absorbs (covers : t.CoversReads s) (slot : Slot) :
    (t.getSlot slot).Absorbs (s.getSlot slot) := by
  have same := covers.slots slot
  rwa [getSlot_join] at same

theorem of_absorbs (slots : ∀ slot, (t.getSlot slot).Absorbs (s.getSlot slot))
    (scope : t.scope.join s.scope = t.scope) : t.CoversReads s where
  slots := by
    intro slot
    rw [getSlot_join]
    exact slots slot
  scope := scope

theorem refl (plain : s.Each Value.Plain) : s.CoversReads s :=
  of_absorbs (fun slot => (plain slot).absorbs_self) (Scope.join_self _)

variable (plain : s.Each Value.Plain) (plain' : t.Each Value.Plain) (covers : t.CoversReads s)
  (formed : v.Plain) (formed' : w.Plain)

include plain plain' covers formed formed'

theorem store (above : w.Absorbs v) (key : Key) {strong strong' : Bool}
    (implied : strong' = true → strong = true) :
    (t.store strong' key w).CoversReads (s.store strong key v) := by
  refine of_absorbs ?_ covers.scope
  intro slot
  unfold Shape.store
  rw [getSlot_set, getSlot_set]
  split
  · exact Value.Plain.absorbs_stored (plain _) (plain' _) formed formed'
      (covers.absorbs (.property key)) above implied
  · exact covers.absorbs slot

theorem storeAny_store (above : w.Absorbs v) (key : Key) (strong : Bool) :
    (t.storeAny w).CoversReads (s.store strong key v) := by
  refine of_absorbs ?_ covers.scope
  intro slot
  have kept : ((t.storeAny w).getSlot slot).Absorbs (s.getSlot slot) := by
    rw [getSlot_storeAny]
    split
    · exact covers.absorbs slot
    · exact (plain slot).absorbs_join_left (plain' slot) formed' (covers.absorbs slot)
  unfold Shape.store
  rw [getSlot_set]
  split
  · rename_i same
    subst same
    rw [show (t.storeAny w).getSlot (.property key) = (t.get key).join w from get_storeAny w t key]
    exact Value.Plain.absorbs_stored (plain _) (plain' _) formed formed'
      (covers.absorbs (.property key)) above (nofun : false = true → strong = true)
  · exact kept

theorem storeAny (above : w.Absorbs v) : (t.storeAny w).CoversReads (s.storeAny v) := by
  refine of_absorbs ?_ covers.scope
  intro slot
  rw [getSlot_storeAny, getSlot_storeAny]
  split
  · exact covers.absorbs slot
  · exact Value.Plain.absorbs_stored (plain _) (plain' _) formed formed' (covers.absorbs slot) above
      (nofun : false = true → false = true)

omit formed

theorem store_left (key : Key) : (t.store false key w).CoversReads s := by
  refine of_absorbs ?_ covers.scope
  intro slot
  unfold Shape.store
  rw [getSlot_set]
  split
  · rename_i same
    subst same
    exact (plain (.property key)).absorbs_join_left (plain' (.property key)) formed'
      (covers.absorbs (.property key))
  · exact covers.absorbs slot

theorem storeAny_left : (t.storeAny w).CoversReads s := by
  refine of_absorbs ?_ covers.scope
  intro slot
  rw [getSlot_storeAny]
  split
  · exact covers.absorbs slot
  · exact (plain slot).absorbs_join_left (plain' slot) formed' (covers.absorbs slot)

end CoversReads

end Shape

theorem FinSet.eq_of_subset_of_size {s t : LabelSet} (subset : ∀ label ∈ s, label ∈ t)
    (one : t.size = 1) {label : Label} (member : label ∈ s) : s = t := by
  obtain ⟨only, listed⟩ := List.length_eq_one_iff.mp (show t.entries.toList.length = 1 from one)
  have alone : ∀ other ∈ t, other = only.1 := by
    intro other held
    have inList : other ∈ t.entries.toList.map Prod.fst := FinSet.mem_toList.mpr held
    rw [listed] at inList
    simpa using inList
  apply FinSet.ext
  intro other
  constructor
  · exact subset other
  · intro held
    rw [alone other held, ← alone label (subset label member)]
    exact member

/-- The second object is there, if the first is, and covers it. -/
def Shape.Covered (s? t? : Option Shape) : Prop :=
  ∀ s, s? = some s → ∃ t, t? = some t ∧ t.CoversReads s

namespace Contents

/-- Each register and each object is covered by that of the second contents. -/
structure Below (a b : Contents) : Prop where
  registers : ∀ r v, a.registers r = some v → ∃ w, b.registers r = some w ∧ w.Absorbs v
  shapes : ∀ label, Shape.Covered (a.shapes label) (b.shapes label)

namespace Below

variable {a b : Contents} (below : a.Below b)

include below

theorem absorbs {r : Register} {v w : Value} (held : a.registers r = some v)
    (held' : b.registers r = some w) : w.Absorbs v := by
  obtain ⟨other, found, above⟩ := below.registers r v held
  rw [held'] at found
  cases found
  exact above

theorem write? (r : Option Register) {v w : Value} (above : w.Absorbs v) :
    (a.write? r v).Below (b.write? r w) where
  registers := by
    intro q u found
    rw [registers_write?] at found ⊢
    split at found
    · rename_i same
      cases found
      exact ⟨w, if_pos same, above⟩
    · rename_i different
      rw [if_neg different]
      exact below.registers q u found
  shapes := by
    rw [shapes_write?, shapes_write?]
    exact below.shapes

theorem change {labels labels' : LabelSet} {f g : Option Shape → Option Shape}
    (subset : ∀ label ∈ labels, label ∈ labels')
    (both : ∀ label ∈ labels, Shape.Covered (f (a.shapes label)) (g (b.shapes label)))
    (more : ∀ label ∈ labels', label ∉ labels →
      Shape.Covered (a.shapes label) (g (b.shapes label))) :
    (a.change labels f).Below (b.change labels' g) where
  registers := below.registers
  shapes := by
    intro label
    unfold Contents.change
    dsimp only
    by_cases member : label ∈ labels
    · rw [if_pos member, if_pos (subset label member)]
      exact both label member
    · rw [if_neg member]
      by_cases member' : label ∈ labels'
      · rw [if_pos member']
        exact more label member' member
      · rw [if_neg member']
        exact below.shapes label

/-- The objects that a write finds or makes. -/
theorem covers_getD {label : Label} (ready : (b.shapes label).isSome → (a.shapes label).isSome) :
    ((b.shapes label).getD .absentModified).CoversReads
      ((a.shapes label).getD .absentModified) := by
  cases held : a.shapes label with
  | some s =>
      obtain ⟨t, held', covers⟩ := below.shapes label s held
      rw [held']
      exact covers
  | none =>
      have missing : b.shapes label = none := by
        rw [held] at ready
        simpa using ready
      rw [missing]
      exact .refl (.absentModified (Value.closed_plain label))

variable (plain : a.Each Value.Plain) (plain' : b.Each Value.Plain)

include plain plain'

theorem allocate (label : Label) : (a.allocate label).Below (b.allocate label) := by
  have absent : Shape.absentModified.Each Value.Plain :=
    .absentModified (Value.closed_plain label)
  refine below.change (fun _ member => member) ?_ fun _ member other => absurd member other
  intro made _ s' found
  cases found
  refine ⟨_, rfl, ?_⟩
  cases held : a.shapes made with
  | some s =>
      obtain ⟨t, held', covers⟩ := below.shapes made s held
      rw [held']
      refine .of_absorbs ?_ ?_
      · intro slot
        rw [Shape.getSlot_join, Shape.getSlot_join]
        exact Value.Plain.absorbs_stored (plain.shapes _ _ held slot) (plain'.shapes _ _ held' slot)
          (absent slot) (absent slot) (covers.absorbs slot) (absent slot).absorbs_self
          (nofun : false = true → false = true)
      · show (t.scope.join _).join (s.scope.join _) = t.scope.join _
        rw [← Scope.join_assoc, Scope.join_still_absorbs _ covers.scope, Scope.join_absorbs]
  | none =>
      dsimp only
      cases held' : b.shapes made with
      | none => exact .refl absent
      | some t =>
          refine .of_absorbs ?_ (Scope.join_absorbs _ _)
          intro slot
          rw [Shape.getSlot_join]
          exact (absent slot).absorbs_join_right (plain'.shapes _ _ held' slot) (absent slot)
            (absent slot).absorbs_self

variable {v w : Value} (formed : v.Plain) (formed' : w.Plain) (above : w.Absorbs v)
  {labels labels' : LabelSet} (subset : ∀ label ∈ labels, label ∈ labels')

include formed formed' above subset

/-- A write keeps the order, unless it is through one label above and through none below. -/
theorem writeProperty (key : Key)
    (ready : ∀ label ∈ labels, (b.shapes label).isSome → (a.shapes label).isSome)
    (sure : labels'.size = 1 → ∃ label, label ∈ labels) :
    (a.writeProperty labels key v).Below (b.writeProperty labels' key w) := by
  have absent : Shape.absentModified.Each Value.Plain :=
    .absentModified (Value.closed_plain .global)
  have slots : ∀ {c : Contents}, c.Each Value.Plain → ∀ label,
      ((c.shapes label).getD .absentModified).Each Value.Plain := by
    intro c each label
    cases held : c.shapes label with
    | none => exact absent
    | some s => exact each.shapes label s held
  refine below.change subset ?_ ?_
  · intro label member s' found
    cases found
    refine ⟨_, rfl, ?_⟩
    refine (below.covers_getD (ready label member)).store (slots plain label)
      (slots plain' label) formed.joinModified formed'.joinModified
      (formed'.absorbs_joinModified formed above) key ?_
    intro one
    have same := FinSet.eq_of_subset_of_size subset (of_decide_eq_true one) member
    rw [same]
    exact one
  · intro label member other s held
    -- The label is one of several: with one label the labels below would be the same.
    have several : ¬ labels'.size = 1 := by
      intro one
      obtain ⟨some, member'⟩ := sure one
      exact other (FinSet.eq_of_subset_of_size subset one member' ▸ member)
    obtain ⟨t, held', covers⟩ := below.shapes label s held
    refine ⟨_, rfl, ?_⟩
    rw [held', decide_eq_false several]
    exact covers.store_left (plain.shapes _ _ held) (plain'.shapes _ _ held') formed'.joinModified key

theorem writeAnyProperty :
    (a.writeAnyProperty labels v).Below (b.writeAnyProperty labels' w) := by
  have stored : w.joinAbsent.joinModified.Absorbs v.joinAbsent.joinModified :=
    formed'.joinAbsent.absorbs_joinModified formed.joinAbsent (formed'.absorbs_joinAbsent formed above)
  refine below.change subset ?_ ?_
  · intro label member s' found
    obtain ⟨s, held, rfl⟩ := Option.map_eq_some_iff.mp found
    obtain ⟨t, held', covers⟩ := below.shapes label s held
    rw [held']
    exact ⟨_, rfl, covers.storeAny (plain.shapes _ _ held) (plain'.shapes _ _ held')
      formed.joinAbsent.joinModified formed'.joinAbsent.joinModified stored⟩
  · intro label member _ s held
    obtain ⟨t, held', covers⟩ := below.shapes label s held
    rw [held']
    exact ⟨_, rfl, covers.storeAny_left (plain.shapes _ _ held) (plain'.shapes _ _ held')
      formed'.joinAbsent.joinModified⟩

/-- A write of unknown name is above every write of a name. -/
theorem writeProperty_writeAnyProperty (key : Key)
    (ready : ∀ label ∈ labels, (a.shapes label).isSome) :
    (a.writeProperty labels key v).Below (b.writeAnyProperty labels' w) := by
  have stored : w.joinAbsent.joinModified.Absorbs v.joinModified :=
    formed'.joinAbsent.absorbs_joinModified formed
      (Value.Plain.absorbs_trans formed formed' formed'.joinAbsent formed'.joinAbsent_absorbs above)
  refine below.change subset ?_ ?_
  · intro label member s' found
    obtain ⟨s, held⟩ := Option.isSome_iff_exists.mp (ready label member)
    obtain ⟨t, held', covers⟩ := below.shapes label s held
    cases found
    rw [held, held']
    exact ⟨_, rfl, covers.storeAny_store (plain.shapes _ _ held) (plain'.shapes _ _ held')
      formed.joinModified formed'.joinAbsent.joinModified stored key _⟩
  · intro label member _ s held
    obtain ⟨t, held', covers⟩ := below.shapes label s held
    rw [held']
    exact ⟨_, rfl, covers.storeAny_left (plain.shapes _ _ held) (plain'.shapes _ _ held')
      formed'.joinAbsent.joinModified⟩

/-- A write keeps the order, unless it is surer above: of the name, or of the only label. -/
theorem writeThrough {key key' : Option Key} (keys : key' = none ∨ key = key')
    (ready : ∀ label ∈ labels, (a.shapes label).isSome)
    (sure : ∀ known, key' = some known → labels'.size = 1 → ∃ label, label ∈ labels) :
    (a.writeThrough labels key v).Below (b.writeThrough labels' key' w) := by
  cases key' with
  | none =>
      cases key with
      | none => exact below.writeAnyProperty plain plain' formed formed' above subset
      | some key =>
          exact below.writeProperty_writeAnyProperty plain plain' formed formed' above subset key
            ready
  | some known =>
      obtain rfl : key = some known := keys.elim nofun id
      exact below.writeProperty plain plain' formed formed' above subset known
        (fun label member _ => ready label member) (sure known rfl)

end Below

/-! ### Reading -/

/-- The values that a read joins. -/
def readValues (c : Contents) (labels : LabelSet) (key : Option Key) : List Value :=
  key.elim ((c.shapesOf labels).flatMap State.anyPropertyValues) fun key =>
    (c.shapesOf labels).map fun shape => shape.get key

theorem foldl_readValues (c : Contents) (labels : LabelSet) (key : Option Key) :
    key.elim (c.readAnyProperty labels) (c.readProperty labels) =
      (c.readValues labels key).foldl Value.join .none := by
  cases key with
  | none => exact List.foldl_flatMap.symm
  | some key => exact List.foldl_map.symm

theorem mem_shapesOf {c : Contents} {labels : LabelSet} {shape : Shape} :
    shape ∈ c.shapesOf labels ↔ ∃ label ∈ labels, c.shapes label = some shape := by
  unfold shapesOf
  simp only [List.mem_filterMap, FinSet.mem_toList]

/-- A property is among those that a read of unknown name joins, itself or by a default. -/
theorem get_mem_anyPropertyValues (shape : Shape) (key : Key) :
    shape.get key ∈ State.anyPropertyValues shape := by
  unfold State.anyPropertyValues
  cases listed : shape.properties.get? key with
  | some v =>
      rw [Shape.get_of_listed listed]
      simp [FinMap.mem_values_iff.mpr ⟨key, listed⟩]
  | none =>
      rw [Shape.get_of_not_listed listed]
      unfold Shape.default
      split <;> simp

theorem slot_of_mem_anyPropertyValues {shape : Shape} {v : Value}
    (member : v ∈ State.anyPropertyValues shape) :
    v = shape.defaultNumeric ∨ v = shape.defaultOther ∨ ∃ key, v = shape.get key := by
  unfold State.anyPropertyValues at member
  rw [List.mem_cons, List.mem_cons] at member
  refine member.imp_right (Or.imp_right fun member => ?_)
  obtain ⟨key, listed⟩ := FinMap.mem_values_iff.mp member
  exact ⟨key, (Shape.get_of_listed listed).symm⟩

/-- What holds of every slot holds of every value that a read joins. -/
theorem Each.readValues {P : Value → Prop} {c : Contents} (each : c.Each P) {labels : LabelSet}
    {key : Option Key} : ∀ v ∈ c.readValues labels key, P v := by
  intro v member
  cases key with
  | none =>
      obtain ⟨shape, found, member⟩ := List.mem_flatMap.mp member
      have slots := each.shapesOf found
      rcases slot_of_mem_anyPropertyValues member with rfl | rfl | ⟨key, rfl⟩
      · exact slots .defaultNumeric
      · exact slots .defaultOther
      · exact slots (.property key)
  | some key =>
      obtain ⟨shape, found, rfl⟩ := List.mem_map.mp member
      exact each.shapesOf found (.property key)

namespace Below

variable {a b : Contents} (below : a.Below b) {labels labels' : LabelSet}
  (subset : ∀ label ∈ labels, label ∈ labels') {key key' : Option Key}
  (keys : key' = none ∨ key = key')

include below subset keys

/-- Each value that a read joins is below one that a read above joins. -/
theorem readValues : ∀ v ∈ a.readValues labels key,
    ∃ w ∈ b.readValues labels' key', w.Absorbs v := by
  have shapes : ∀ s ∈ a.shapesOf labels, ∃ t ∈ b.shapesOf labels', t.CoversReads s := by
    intro s member
    obtain ⟨label, inside, held⟩ := mem_shapesOf.mp member
    obtain ⟨t, held', covers⟩ := below.shapes label s held
    exact ⟨t, mem_shapesOf.mpr ⟨label, subset label inside, held'⟩, covers⟩
  intro v member
  cases key with
  | some known =>
      obtain ⟨s, found, rfl⟩ := List.mem_map.mp member
      obtain ⟨t, found', covers⟩ := shapes s found
      refine ⟨t.get known, ?_, covers.absorbs (.property known)⟩
      rcases keys with rfl | rfl
      · exact List.mem_flatMap.mpr ⟨t, found', get_mem_anyPropertyValues t known⟩
      · exact List.mem_map_of_mem found'
  | none =>
      obtain rfl : key' = none := keys.elim id Eq.symm
      obtain ⟨s, found, member⟩ := List.mem_flatMap.mp member
      obtain ⟨t, found', covers⟩ := shapes s found
      have inside : ∀ {w : Value}, w ∈ State.anyPropertyValues t → w ∈ b.readValues labels' none :=
        fun member => List.mem_flatMap.mpr ⟨t, found', member⟩
      rcases slot_of_mem_anyPropertyValues member with rfl | rfl | ⟨name, rfl⟩
      · exact ⟨t.defaultNumeric, inside (by simp [State.anyPropertyValues]),
          covers.absorbs .defaultNumeric⟩
      · exact ⟨t.defaultOther, inside (by simp [State.anyPropertyValues]),
          covers.absorbs .defaultOther⟩
      · exact ⟨_, inside (get_mem_anyPropertyValues t name), covers.absorbs (.property name)⟩

omit subset in
/-- A read keeps the order, unless the name is known above and not below. -/
theorem readThrough (plain : a.Each Value.Plain) (plain' : b.Each Value.Plain) {u u' : Value}
    (formed : u.Plain) (formed' : u'.Plain) (above : u'.Absorbs u) :
    (b.readThrough u' key').Absorbs (a.readThrough u key) := by
  have labels := above.labels formed'.formed formed'.known
  have none : Value.none.Plain := .ofFlags rfl
  have primitive : Value.anyPrimitive.Plain := .ofFlags rfl
  have values : ∀ {c : Contents}, c.Each Value.Plain → ∀ {labels : LabelSet} {key : Option Key},
      ((c.readValues labels key).foldl Value.join .none).Plain := fun plain _ _ =>
    .foldl_join plain.readValues none
  have raw : ((b.readValues u'.labels key').foldl Value.join .none).Absorbs
      ((a.readValues u.labels key).foldl Value.join .none) := by
    refine ((values plain').absorbs_foldl_iff plain.readValues none).mpr
      ⟨(values plain').absorbs_none, ?_⟩
    intro v member
    obtain ⟨w, member', below⟩ := below.readValues labels keys v member
    have upper := Value.foldl_join_absorbs
      (fun w member => (plain'.readValues w member).formed) none.formed w member'
    exact Value.Plain.absorbs_trans (plain.readValues v member)
      (plain'.readValues w member') (values plain') upper below
  have read := (values plain').absorbs_readAs (values plain) raw
  have plainRead : ∀ {v : Value}, v.Plain → (State.readAs v).Plain :=
    readAs_of_kept (Value.closed_plain .global).toKept
  unfold Contents.readThrough
  simp only [foldl_readValues]
  by_cases holds : u.maybePrimitive = true
  · rw [if_pos holds, if_pos (formed'.maybePrimitive_of_absorbs formed above holds)]
    exact Value.Plain.absorbs_stored (plainRead (values plain)) (plainRead (values plain')) primitive
      primitive read primitive.absorbs_self (nofun : false = true → false = true)
  · rw [if_neg holds]
    split
    · exact (plainRead (values plain)).absorbs_join_left (plainRead (values plain')) primitive read
    · exact read

end Below

/-! ### Variables -/

section

variable {a b : Contents} (below : a.Below b) (plain : a.Each Value.Plain)
  (plain' : b.Each Value.Plain) {f : Function} {name : String}
  (holds : (b.shapes (f.variableLabel name)).isSome → (a.shapes (f.variableLabel name)).isSome)

include below plain plain' holds

theorem Below.readVariable : (b.readVariable f name).Absorbs (a.readVariable f name) := by
  unfold Contents.readVariable
  cases held : a.shapes (f.variableLabel name) with
  | some s =>
      obtain ⟨t, held', covers⟩ := below.shapes _ s held
      rw [held']
      exact (plain'.shapes _ _ held' _).absorbs_readAs (plain.shapes _ _ held _)
        (covers.absorbs (.property (.name name)))
  | none =>
      have missing : b.shapes (f.variableLabel name) = none := by
        rw [held] at holds
        simpa using holds
      rw [missing]
      exact Value.Plain.absorbs_self (.ofFlags rfl)

theorem Below.writeVariable {v w : Value} (formed : v.Plain) (formed' : w.Plain)
    (above : w.Absorbs v) :
    (a.writeVariable f name v).Below (b.writeVariable f name w) := by
  have closed := Value.closed_plain (f.variableLabel name)
  let labels : LabelSet := FinSet.singleton (f.variableLabel name)
  have first : (a.writeProperty labels (.name name) v).Below
      (b.writeProperty labels (.name name) w) := by
    refine below.writeProperty plain plain' formed formed' above (fun _ member => member) _ ?_ ?_
    · intro label member
      rw [FinSet.mem_singleton.mp member]
      exact holds
    · exact fun _ => ⟨_, FinSet.mem_singleton.mpr rfl⟩
  have plainFirst : (a.writeProperty labels (.name name) v).Each Value.Plain :=
    ⟨plain.registers, Each.writeProperty closed plain.shapes labels _ formed⟩
  have plainFirst' : (b.writeProperty labels (.name name) w).Each Value.Plain :=
    ⟨plain'.registers, Each.writeProperty closed plain'.shapes labels _ formed'⟩
  unfold Contents.writeVariable writeArgument
  cases f.parameterIndex? name with
  | none => exact first
  | some index =>
      dsimp only
      split
      · rename_i held
        obtain ⟨s, found⟩ := Option.isSome_iff_exists.mp held
        obtain ⟨t, found', _⟩ := first.shapes _ s found
        rw [if_pos (Option.isSome_iff_exists.mpr ⟨t, found'⟩)]
        refine first.writeProperty plainFirst plainFirst' formed formed' above
          (fun _ member => member) _ ?_ fun _ => ⟨_, FinSet.mem_singleton.mpr rfl⟩
        intro label member _
        rw [FinSet.mem_singleton.mp member]
        exact held
      · rename_i missing
        split
        · -- The write above is to an object that the contents below do not have.
          refine ⟨first.registers, ?_⟩
          intro label s found
          have other : label ∉ FinSet.singleton (Label.arguments f.index) := by
            intro member
            rw [FinSet.mem_singleton.mp member] at found
            exact missing (Option.isSome_iff_exists.mpr ⟨s, found⟩)
          show ∃ t, (if label ∈ _ then _ else _) = some t ∧ _
          rw [if_neg other]
          exact first.shapes label s found
        · exact first

end

end Contents

end ScriptHeap
