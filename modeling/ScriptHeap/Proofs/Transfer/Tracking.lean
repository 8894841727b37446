import Mathlib.Data.Finite.Prod
import Mathlib.Data.Set.Finite.Lattice
import ScriptHeap.Proofs.Transfer.Bounds

/-!
# Known strings along a block

Ordinary rules can put together new strings and write properties under them. A block that is run on
contents that only ever grow still meets finitely many of them: each register and each slot of the
growing contents has at most one known string, before it may be any string, and a node makes
finitely many of finitely many. So the block lists finitely many keys that the contents before it
did not list (`Contents.exists_tracked`).

A read of unknown name is the one rule that looks at infinitely many slots at once. It gives a known
string only if all of them agree, and the slots that the block has not written go on agreeing with
what they held before.
-/

namespace ScriptHeap

/-! ### Strings of values -/

namespace Value

/-- The string of the value, where it is known, is one of some strings. -/
def StringIn (S : Set String) (v : Value) : Prop := ∀ s, v.string = some s → s ∈ S

variable {S T : Set String} {v w : Value} {s t : String}

theorem StringIn.mono (own : v.StringIn S) (subset : S ⊆ T) : v.StringIn T :=
  fun s known => subset (own s known)

theorem StringIn.join (plain : v.Plain) (plain' : w.Plain) (own : v.StringIn S)
    (other : w.StringIn S) : (v.join w).StringIn S :=
  fun s known => (plain.string_join plain' known).elim (own s) (other s)

/-- What is absorbed has no other known string. -/
theorem Plain.string_unique (plain : w.Plain) (plain' : v.Plain) (above : w.Absorbs v)
    (known : v.string = some s) (known' : w.string = some t) : s = t := by
  obtain ⟨-, strings, -⟩ := (plain.absorbs_iff plain').mp above
  rcases strings s known with same | any
  · exact Option.some.inj (same.symm.trans known')
  · rw [plain.formed.oneString any] at known'
    cases known'

theorem string_foldl_join {values : List Value} (plain : ∀ v ∈ values, v.Plain) (start : v.Plain)
    (known : (values.foldl Value.join v).string = some s) :
    v.string = some s ∨ ∃ w ∈ values, w.string = some s := by
  induction values generalizing v with
  | nil => exact .inl known
  | cons w rest ih =>
      have first := plain w List.mem_cons_self
      rcases ih (fun other member => plain other (List.mem_cons_of_mem _ member))
        (start.join first) known with known | ⟨other, member, known⟩
      · refine (start.string_join first known).imp_right fun known => ?_
        exact ⟨w, List.mem_cons_self, known⟩
      · exact .inr ⟨other, List.mem_cons_of_mem _ member, known⟩

theorem string_readAs (plain : v.Plain) (known : (State.readAs v).string = some s) :
    v.string = some s := by
  have present : v.notAbsent.notModified.withoutAttributes.Plain := plain.reflag rfl rfl
  unfold State.readAs at known
  dsimp only at known
  split at known
  · exact (present.string_join (.ofFlags rfl) known).elim id nofun
  · exact known

theorem string_of_exactString? (known : v.exactString? = some s) : v.string = some s := by
  unfold exactString? at known
  split at known
  · cases known
  · exact known

/-- An operator gives a known string only by adding two. -/
theorem string_operator {op : BinaryOperator} (known : (op.value v w).string = some s) :
    ∃ t u, v.string = some t ∧ w.string = some u ∧ s = t ++ u := by
  cases op with
  | add =>
      by_cases both : ∃ t u, v.exactString? = some t ∧ w.exactString? = some u
      · obtain ⟨t, u, left, right⟩ := both
        rw [show BinaryOperator.add.value v w = .ofString (t ++ u) from
          Plain.sum_of_strings left right] at known
        exact ⟨t, u, string_of_exactString? left, string_of_exactString? right,
          (Option.some.inj known).symm⟩
      · have sum := Plain.sum_of_no_strings fun t u left right => both ⟨t, u, left, right⟩
        rw [show BinaryOperator.add.value v w = _ from sum] at known
        split at known <;> cases known
  | sub | mul | div | eq | strictEq | lt => cases known

end Value

/-! ### Shapes -/

/-- A shape that an object of another shape, or a new object, was given by writes under some keys:
    what these hold, and the slots that are no properties, has one of some strings. The other
    properties have grown. -/
structure Shape.Tracked (K : Set Key) (S : Set String) (old? : Option Shape) (shape : Shape) :
    Prop where
  slots : ∀ slot, (∀ key, slot = .property key → key ∈ K) → (shape.getSlot slot).StringIn S
  kept : ∀ key s, key ∉ K → (shape.get key).string = some s →
    s ∈ S ∨ ∃ old, old? = some old ∧ (old.get key).string = some s
  grown : ∀ old, old? = some old → ∀ key, key ∉ K → (shape.get key).Absorbs (old.get key)
  listed : ∀ key, shape.properties.contains key = true →
    key ∈ K ∨ ∃ old, old? = some old ∧ old.properties.contains key = true

namespace Shape

/-- A slot of a new object is absent. -/
theorem getSlot_absentModified (slot : Slot) : absentModified.getSlot slot = .absentModified := by
  cases slot with
  | property key =>
      show absentModified.default key = _
      unfold default
      split <;> rfl
  | defaultNumeric | defaultOther | internalValue | internalPrototype => rfl

namespace Tracked

variable {K : Set Key} {S : Set String} {old? : Option Shape} {shape : Shape} {v : Value}

theorem absentModified : Shape.absentModified.Tracked K S Option.none where
  slots := by
    intro slot _ s known
    rw [getSlot_absentModified] at known
    cases known
  kept := by
    intro key s _ known
    rw [show Shape.absentModified.get key = _ from getSlot_absentModified (.property key)] at known
    cases known
  grown := nofun
  listed := nofun

theorem store (tracked : shape.Tracked K S old?) (each : shape.Each Value.Plain) (strong : Bool)
    {key : Key} (member : key ∈ K) (plain : v.Plain) (own : v.StringIn S) :
    (shape.store strong key v).Tracked K S old? := by
  have other : ∀ {name : Key}, name ∉ K → (shape.store strong key v).get name = shape.get name := by
    intro name outside
    have different : name ≠ key := by
      rintro rfl
      exact outside member
    rw [get_store, if_neg different]
  refine ⟨?_, ?_, ?_, ?_⟩
  · intro slot inside
    unfold Shape.store
    rw [getSlot_set]
    split
    · split
      · exact own
      · exact (tracked.slots (.property key) fun _ same => Slot.property.inj same ▸ member).join
          (each (.property key)) plain own
    · exact tracked.slots slot inside
  · intro name s outside known
    rw [other outside] at known
    exact tracked.kept name s outside known
  · intro old held name outside
    rw [other outside]
    exact tracked.grown old held name outside
  · intro name found
    have inserted : (shape.properties.insert key _).contains name = true := found
    rw [FinMap.contains, FinMap.get?_insert] at inserted
    split at inserted
    · rename_i same
      exact .inl (same ▸ member)
    · exact tracked.listed name inserted

/-- Joining a value with one of the strings to some of the slots. -/
theorem joined (tracked : shape.Tracked K S old?) (each : shape.Each Value.Plain)
    (olds : ∀ old, old? = some old → old.Each Value.Plain) {shape' : Shape}
    (same : ∀ slot, shape'.getSlot slot = shape.getSlot slot ∨
      ∃ v : Value, v.Plain ∧ v.StringIn S ∧ shape'.getSlot slot = (shape.getSlot slot).join v)
    (keys : ∀ key, shape'.properties.contains key = true → shape.properties.contains key = true) :
    shape'.Tracked K S old? where
  slots := by
    intro slot inside
    rcases same slot with same | ⟨v, plain, own, same⟩
    · rw [same]
      exact tracked.slots slot inside
    · rw [same]
      exact (tracked.slots slot inside).join (each slot) plain own
  kept := by
    intro key s outside known
    have known : (shape'.getSlot (.property key)).string = some s := known
    rcases same (.property key) with same | ⟨v, plain, own, same⟩
    · rw [same] at known
      exact tracked.kept key s outside known
    · rw [same] at known
      rcases (each (.property key)).string_join plain known with known | known
      · exact tracked.kept key s outside known
      · exact .inl (own s known)
  grown := by
    intro old held key outside
    have above := tracked.grown old held key outside
    show (shape'.getSlot (.property key)).Absorbs _
    rcases same (.property key) with same | ⟨v, plain, _, same⟩
    · rw [same]
      exact above
    · rw [same]
      exact (olds old held (.property key)).absorbs_join_left (each (.property key)) plain above
  listed := fun key found => tracked.listed key (keys key found)

theorem storeAny (tracked : shape.Tracked K S old?) (each : shape.Each Value.Plain)
    (olds : ∀ old, old? = some old → old.Each Value.Plain) (plain : v.Plain) (own : v.StringIn S) :
    (shape.storeAny v).Tracked K S old? := by
  refine tracked.joined each olds ?_ ?_
  · intro slot
    rw [getSlot_storeAny]
    split
    · exact .inl rfl
    · exact .inr ⟨v, plain, own, rfl⟩
  · intro key found
    have mapped : (shape.properties.mapValues (·.join v)).contains key = true := found
    rw [FinMap.contains, FinMap.get?_mapValues, Option.isSome_map] at mapped
    exact mapped

theorem join_absentModified (tracked : shape.Tracked K S old?) (each : shape.Each Value.Plain)
    (olds : ∀ old, old? = some old → old.Each Value.Plain) :
    (shape.join .absentModified).Tracked K S old? := by
  refine tracked.joined each olds ?_ ?_
  · intro slot
    rw [getSlot_join, getSlot_absentModified]
    exact .inr ⟨.absentModified, .ofFlags rfl, nofun, rfl⟩
  · intro key found
    exact ((contains_join shape .absentModified key).mp found).elim id nofun

/-- More keys and more strings, among which are those that the keys held before. -/
theorem weaken (tracked : shape.Tracked K S old?) {K' : Set Key} {S' : Set String}
    (keys : K ⊆ K') (strings : S ⊆ S')
    (before : ∀ old, old? = some old → ∀ key ∈ K', (old.get key).StringIn S') :
    shape.Tracked K' S' old? where
  slots := by
    intro slot inside
    by_cases settled : ∀ key, slot = .property key → key ∈ K
    · exact (tracked.slots slot settled).mono strings
    · obtain ⟨key, rfl, outside⟩ : ∃ key, slot = .property key ∧ key ∉ K := by
        simpa using settled
      intro s known
      rcases tracked.kept key s outside known with inside' | ⟨old, held, known⟩
      · exact strings inside'
      · exact before old held key (inside key rfl) s known
  kept := by
    intro key s outside known
    exact (tracked.kept key s (fun member => outside (keys member)) known).imp_left (strings ·)
  grown := fun old held key outside =>
    tracked.grown old held key fun member => outside (keys member)
  listed := fun key found => (tracked.listed key found).imp_left (keys ·)

end Tracked

end Shape

/-! ### Contents -/

namespace Contents

/-- What a block has made of contents by writes under some keys. -/
structure Tracked (K : Set Key) (S : Set String) (c d : Contents) : Prop where
  registers : Lookup.All (Value.StringIn S) d.registers
  shapes : ∀ label shape, d.shapes label = some shape → shape.Tracked K S (c.shapes label)
  held : ∀ label, (c.shapes label).isSome → (d.shapes label).isSome

/-- The keys that a node writes. -/
inductive Writes (program : FlowGraph) (node : Node) (d : Contents) : Key → Prop where
  | ofVariable {name : String} {r : Register} (operation : node.operation = .writeVariable name r) :
      Writes program node d (.name name)
  | ofArgument {name : String} {r : Register} {f : Function} {index : Nat}
      (operation : node.operation = .writeVariable name r) (member : f ∈ program.functions)
      (parameter : f.parameterIndex? name = some index) :
      Writes program node d (.name (toString index))
  | ofProperty {base r : Register} {property : PropertyName} {key : Key}
      (operation : node.operation = .writeProperty base property r)
      (name : d.key? property = .ok (some key)) : Writes program node d key

/-- The known strings that a node can give its result. -/
inductive Gives (program : FlowGraph) (node : Node) (d : Contents) (s : String) : Prop where
  | ofConstant {result : Register} {value : Constant}
      (operation : node.operation = .constant result value) (known : value.value.string = some s)
  | ofVariable {result : Register} {name : String} {f : Function}
      (operation : node.operation = .readVariable result name)
      (known : (d.readVariable f name).string = some s)
  | ofProperty {result : Option Register} {base : Register} {property : PropertyName} {u : Value}
      {key : Option Key} (operation : node.operation = .readProperty result base property)
      (name : d.key? property = .ok key) (known : (d.readThrough u key).string = some s)
  | ofOperator {result lhs rhs : Register} {op : BinaryOperator} {u v : Value}
      (operation : node.operation = .binaryOperator result op lhs rhs)
      (left : d.registers lhs = some u) (right : d.registers rhs = some v)
      (known : (op.value u v).string = some s)

variable {program : FlowGraph} {node : Node} {K : Set Key} {S : Set String} {c d d' : Contents}

theorem Steps.gives (steps : Steps program node d d') {r : Register} {v : Value} {s : String}
    (result : node.operation.result? = some r) (found : d'.registers r = some v)
    (known : v.string = some s) : d.Gives program node s := by
  have written : ∀ {e : Contents} {q : Option Register} {w : Value}, q = some r →
      (e.write? q w).registers r = some v → w.string = some s := by
    intro e q w same found
    rw [registers_write?, if_pos same] at found
    cases found
    exact known
  cases steps with
  | @constant q _ operation =>
      rw [operation] at result
      exact .ofConstant operation (written (q := some q) result found)
  | @readVariable q _ _ operation =>
      rw [operation] at result
      exact .ofVariable operation (written (q := some q) result found)
  | readProperty operation _ name =>
      rw [operation] at result
      exact .ofProperty operation name (written result found)
  | @newObject q operation =>
      rw [operation] at result
      cases written (e := d.allocate node.label) (q := some q) result found
  | construct operation =>
      rw [operation] at result
      cases written result found
  | call operation =>
      rw [operation] at result
      cases written result found
  | @binaryOperator q _ _ _ _ _ operation left right =>
      rw [operation] at result
      exact .ofOperator operation left right (written (q := some q) result found)
  | writeVariable operation | writeProperty operation =>
      rw [operation] at result
      cases result
  | idle kind =>
      obtain ⟨_, _, operation⟩ := node
      cases operation with
      | nop | foreignMarker => cases result
      | _ => cases kind <;> contradiction

namespace Tracked

theorem getD (tracked : Tracked K S c d) (label : Label) :
    ((d.shapes label).getD .absentModified).Tracked K S (c.shapes label) := by
  cases found : d.shapes label with
  | some shape => exact tracked.shapes label shape found
  | none =>
      have missing : c.shapes label = none := by
        have held := tracked.held label
        rw [found] at held
        simpa using held
      rw [missing]
      exact .absentModified

theorem change (tracked : Tracked K S c d) {labels : LabelSet} {f : Option Shape → Option Shape}
    (keeps : ∀ label ∈ labels, ∀ shape, f (d.shapes label) = some shape →
      shape.Tracked K S (c.shapes label))
    (held : ∀ label ∈ labels, (d.shapes label).isSome → (f (d.shapes label)).isSome) :
    Tracked K S c (d.change labels f) where
  registers := tracked.registers
  shapes := by
    intro label shape found
    unfold Contents.change at found
    dsimp only at found
    split at found
    · exact keeps label ‹_› shape found
    · exact tracked.shapes label shape found
  held := by
    intro label before
    have now := tracked.held label before
    unfold Contents.change
    dsimp only
    split
    · exact held label ‹_› now
    · exact now

variable (tracked : Tracked K S c d) (plain : d.Each Value.Plain)

include tracked plain

theorem writeProperty (labels : LabelSet) {key : Key} (member : key ∈ K) {v : Value}
    (formed : v.Plain) (own : v.StringIn S) : Tracked K S c (d.writeProperty labels key v) := by
  refine tracked.change ?_ fun _ _ _ => rfl
  intro label _ shape found
  cases found
  refine (tracked.getD label).store ?_ _ member (formed.reflag rfl rfl) own
  cases found : d.shapes label with
  | none => exact .absentModified (Value.closed_plain label)
  | some shape => exact plain.shapes label shape found

theorem writeVariable {f : Function} {name : String} (written : .name name ∈ K)
    (argument : ∀ index, f.parameterIndex? name = some index → .name (toString index) ∈ K)
    {v : Value} (formed : v.Plain) (own : v.StringIn S) :
    Tracked K S c (d.writeVariable f name v) := by
  have first := tracked.writeProperty plain (FinSet.singleton (f.variableLabel name)) written
    formed own
  have plainFirst : Each Value.Plain (d.writeProperty _ (.name name) v) :=
    ⟨plain.registers, Each.writeProperty (Value.closed_plain .global) plain.shapes
      (FinSet.singleton (f.variableLabel name)) _ formed⟩
  unfold Contents.writeVariable writeArgument
  cases parameter : f.parameterIndex? name with
  | none => exact first
  | some index =>
      dsimp only
      split
      · exact first.writeProperty plainFirst _ (argument index parameter) formed own
      · exact first

variable (before : c.Each Value.Plain)

include before

theorem writeAnyProperty (labels : LabelSet) {v : Value} (formed : v.Plain) (own : v.StringIn S) :
    Tracked K S c (d.writeAnyProperty labels v) := by
  refine tracked.change ?_ ?_
  · intro label _ shape found
    obtain ⟨old, held, rfl⟩ := Option.map_eq_some_iff.mp found
    exact (tracked.shapes label old held).storeAny (plain.shapes label old held)
      (before.shapes label) (formed.reflag rfl rfl) own
  · intro label _ held
    rw [Option.isSome_map]
    exact held

theorem allocate (label : Label) : Tracked K S c (d.allocate label) := by
  refine tracked.change ?_ fun _ _ _ => rfl
  intro other _ shape found
  cases found
  cases held : d.shapes other with
  | none =>
      have new := tracked.getD other
      rw [held] at new
      exact new
  | some old =>
      exact (tracked.shapes other old held).join_absentModified (plain.shapes other old held)
        (before.shapes other)

/-- A node that gives one of the strings and writes under the keys. -/
theorem step (steps : Steps program node d d') (gives : ∀ s, d.Gives program node s → s ∈ S)
    (writes : ∀ key, d.Writes program node key → key ∈ K) : Tracked K S c d' := by
  have registers : Lookup.All (Value.StringIn S) d'.registers := by
    intro r v found s known
    by_cases result : node.operation.result? = some r
    · exact gives s (steps.gives result found known)
    · rw [steps.registers result] at found
      exact tracked.registers r v found s known
  have heap : ∃ e, e.shapes = d'.shapes ∧ Tracked K S c e := by
    cases steps with
    | constant | readVariable | binaryOperator | idle => exact ⟨d, rfl, tracked⟩
    | readProperty | call => exact ⟨d, (shapes_write? ..).symm, tracked⟩
    | @writeVariable name r v f operation value function =>
        have formed := plain.registers r v value
        have collapsed : v.withoutAttributes.collapse = v.withoutAttributes :=
          Value.collapse_of_whole formed.whole
        rw [collapsed]
        refine ⟨_, rfl, tracked.writeVariable plain (writes _ (.ofVariable operation)) ?_
          (formed.reflag rfl rfl) (tracked.registers r v value)⟩
        intro index parameter
        exact writes _ (.ofArgument operation (FlowGraph.mem_functions function) parameter)
    | @writeProperty base r property u v key operation object value name =>
        have formed : v.withoutAttributes.Plain := (plain.registers r v value).reflag rfl rfl
        have own := tracked.registers r v value
        cases key with
        | none => exact ⟨_, rfl, tracked.writeAnyProperty plain before _ formed own⟩
        | some key =>
            exact ⟨_, rfl,
              tracked.writeProperty plain _ (writes key (.ofProperty operation name)) formed own⟩
    | newObject => exact ⟨d.allocate node.label, rfl, tracked.allocate plain before _⟩
    | construct => exact ⟨_, (shapes_write? ..).symm, tracked.allocate plain before _⟩
  obtain ⟨e, same, trackedHeap⟩ := heap
  exact ⟨registers, same ▸ trackedHeap.shapes, same ▸ trackedHeap.held⟩

omit plain before

theorem weaken {K' : Set Key} {S' : Set String} (keys : K ⊆ K') (strings : S ⊆ S')
    (before : ∀ label old, c.shapes label = some old → ∀ key ∈ K', (old.get key).StringIn S') :
    Tracked K' S' c d where
  registers := fun r v found => (tracked.registers r v found).mono strings
  shapes := fun label shape found =>
    (tracked.shapes label shape found).weaken keys strings (before label)
  held := tracked.held

end Tracked

/-! ### Growing contents -/

/-- Of any two of the contents, one covers the other. -/
def Chain (C : Set Contents) : Prop := ∀ c ∈ C, ∀ d ∈ C, c.Covers d ∨ d.Covers c

/-- The known strings that some contents hold at a spot. -/
def strings (C : Set Contents) (spot : Spot) : Set String :=
  {s | ∃ c ∈ C, ∃ v, c.at? spot = some v ∧ v.string = some s}

section Chain

variable {C : Set Contents} (chain : Chain C) (within : ∀ c ∈ C, c.Within program)

include chain within

/-- Growing contents have at most one known string at each spot. -/
theorem strings_subsingleton (spot : Spot) : (strings C spot).Subsingleton := by
  have above : ∀ {c d : Contents} {v w : Value} {s t : String}, c ∈ C → d ∈ C → c.Covers d →
      d.at? spot = some v → v.string = some s → c.at? spot = some w → w.string = some t →
      s = t := by
    intro c d v w s t member member' covers held known held' known'
    obtain ⟨w', found, absorbs⟩ := covers.at? (within d member').plain held
    rw [held'] at found
    cases found
    exact ((within c member).plain.at? held').string_unique ((within d member').plain.at? held)
      absorbs known known'
  rintro s ⟨c, member, v, held, known⟩ t ⟨d, member', w, held', known'⟩
  rcases chain c member d member' with covers | covers
  · exact (above member member' covers held' known' held known).symm
  · exact above member' member covers held known held' known'

/-- The known strings of a slot, over all objects. -/
theorem finite_slotStrings (slot : Slot) :
    {s | ∃ label ∈ program.labels, s ∈ strings C (.slot label slot)}.Finite := by
  have union : {s | ∃ label ∈ program.labels, s ∈ strings C (.slot label slot)} =
      ⋃ label ∈ {label | label ∈ program.labels}, strings C (.slot label slot) := by
    ext s
    simp
  rw [union]
  exact (List.finite_toSet _).biUnion fun label _ =>
    (strings_subsingleton chain within (.slot label slot)).finite

end Chain

/-! ### The strings and keys of a node -/

/-- A read gives a known string only if it is that of the values that it joins. -/
theorem string_readThrough (plain : d.Each Value.Plain) {u : Value} {key : Option Key} {s : String}
    (known : (d.readThrough u key).string = some s) :
    ((d.readValues u.labels key).foldl Value.join .none).string = some s := by
  have raw : ((d.readValues u.labels key).foldl Value.join .none).Plain :=
    .foldl_join plain.readValues (.ofFlags rfl)
  have read : (State.readAs ((d.readValues u.labels key).foldl Value.join .none)).Plain :=
    readAs_of_kept (Value.closed_plain .global).toKept raw
  unfold readThrough at known
  simp only [foldl_readValues] at known
  refine Value.string_readAs raw ?_
  split at known
  · exact (read.string_join (.ofFlags rfl) known).elim id nofun
  · exact known

/-- Contents that part of a block has made of growing contents. -/
structure Traced (program : FlowGraph) (C : Set Contents) (K : Set Key) (S : Set String)
    (D : Contents → Contents → Prop) : Prop where
  before : ∀ {c d}, D c d → c ∈ C
  within : ∀ {c d}, D c d → d.Within program
  tracked : ∀ {c d}, D c d → Tracked K S c d

section Node

variable {C : Set Contents} {D : Contents → Contents → Prop} (traced : Traced program C K S D)

include traced

/-- The known strings of a property come from the block or were there before it. -/
theorem Traced.property_string (made : D c d) {label : Label} {shape : Shape}
    (found : d.shapes label = some shape) {key : Key} {s : String}
    (known : (shape.get key).string = some s) :
    s ∈ S ∨ ∃ old, c.shapes label = some old ∧ (old.get key).string = some s := by
  have tracked := (traced.tracked made).shapes label shape found
  by_cases member : key ∈ K
  · exact .inl (tracked.slots (.property key) (by rintro _ ⟨⟩; exact member) s known)
  · exact tracked.kept key s member known

theorem Traced.property_mem (made : D c d) {label : Label} {shape : Shape}
    (found : d.shapes label = some shape) {key : Key} {s : String}
    (known : (shape.get key).string = some s) :
    s ∈ S ∪ {s | ∃ label ∈ program.labels, s ∈ strings C (.slot label (.property key))} := by
  rcases traced.property_string made found known with own | ⟨old, held, known⟩
  · exact .inl own
  · exact .inr ⟨label, ((traced.within made).placed label shape found).1, c, traced.before made, _,
      at?_slot held _, known⟩

/-- The keys of an access over all contents. -/
theorem Traced.finite_keys (finite : S.Finite) (property : PropertyName) :
    {key | ∃ c d, D c d ∧ d.key? property = .ok (some key)}.Finite := by
  cases property with
  | fixed name =>
      refine (Set.finite_singleton (Key.name name)).subset ?_
      rintro key ⟨_, _, _, known⟩
      cases known
      rfl
  | dynamic r =>
      refine (finite.image Key.name).subset ?_
      rintro key ⟨c, d, made, known⟩
      obtain ⟨v, held, done⟩ := of_bind_eq_ok known
      obtain ⟨s, exact, rfl⟩ := Option.map_eq_some_iff.mp (Except.ok.inj done)
      exact ⟨s, (traced.tracked made).registers r v (registers_of_readRegister held) s
        (Value.string_of_exactString? exact), rfl⟩

theorem Traced.finite_writes (finite : S.Finite) (node : Node) :
    {key | ∃ c d, D c d ∧ d.Writes program node key}.Finite := by
  obtain ⟨index, block, operation⟩ := node
  cases operation with
  | writeVariable name r =>
      have arguments : {key | ∃ f ∈ program.functions,
          key = Key.name (toString ((f.parameterIndex? name).getD 0))}.Finite := by
        refine ((List.finite_toSet program.functions).image fun f =>
          Key.name (toString ((f.parameterIndex? name).getD 0))).subset ?_
        rintro _ ⟨f, member, rfl⟩
        exact ⟨f, member, rfl⟩
      refine ((Set.finite_singleton (Key.name name)).union arguments).subset ?_
      rintro key ⟨_, d, _, writes⟩
      cases writes with
      | ofVariable operation =>
          cases operation
          exact .inl rfl
      | ofArgument operation member parameter =>
          cases operation
          exact .inr ⟨_, member, by rw [parameter]; rfl⟩
      | ofProperty operation => cases operation
  | writeProperty base property r =>
      refine (traced.finite_keys finite property).subset ?_
      rintro key ⟨c, d, made, writes⟩
      cases writes with
      | ofVariable operation => cases operation
      | ofArgument operation => cases operation
      | ofProperty operation known =>
          cases operation
          exact ⟨c, d, made, known⟩
  | _ =>
      refine Set.finite_empty.subset ?_
      rintro key ⟨_, d, _, writes⟩
      cases writes with
      | ofVariable operation => cases operation
      | ofArgument operation => cases operation
      | ofProperty operation => cases operation

variable (chain : Chain C) (within : ∀ c ∈ C, c.Within program)

include chain within

omit chain in
/-- A known string in a slot that the block does not write is still there in later contents, and so
    it is the only one that a read of unknown name can give. -/
theorem Traced.string_later {c' : Contents} (member : c' ∈ C) (made : D c d)
    (covers : c.Covers c') {label : Label} {old : Shape} (held : c'.shapes label = some old)
    {key : Key} (outside : key ∉ K) {s t : String} (known : (old.get key).string = some s)
    {labels : LabelSet} (inside : label ∈ labels)
    (read : ((d.readValues labels none).foldl Value.join .none).string = some t) : s = t := by
  have plain' := (within c' member).plain
  have plain := (within c (traced.before made)).plain
  have plainMade := (traced.within made).plain
  obtain ⟨w, reached, above⟩ := covers.at? plain' (at?_slot held (.property key))
  obtain ⟨grown, found, rfl⟩ := Option.map_eq_some_iff.mp reached
  obtain ⟨shape, foundMade⟩ := Option.isSome_iff_exists.mp
    ((traced.tracked made).held label (Option.isSome_iff_exists.mpr ⟨grown, found⟩))
  have kept := ((traced.tracked made).shapes label shape foundMade).grown grown found key outside
  have listed : shape.get key ∈ d.readValues labels none :=
    List.mem_flatMap.mpr ⟨shape, mem_shapesOf.mpr ⟨label, inside, foundMade⟩,
      get_mem_anyPropertyValues shape key⟩
  have joined := Value.foldl_join_absorbs
    (fun v member => (plainMade.readValues v member).formed)
    (Value.Plain.ofFlags rfl : Value.none.Plain).formed (shape.get key) listed
  have plainOld := plain'.shapes label old held (.property key)
  have plainGrown := plain.shapes label grown found (.property key)
  have plainShape := plainMade.shapes label shape foundMade (.property key)
  have plainRead : ((d.readValues labels none).foldl Value.join .none).Plain :=
    .foldl_join plainMade.readValues (.ofFlags rfl)
  have upper := Value.Plain.absorbs_trans plainOld plainGrown plainShape kept above
  exact plainRead.string_unique plainOld
    (Value.Plain.absorbs_trans plainOld plainShape plainRead joined upper) known read

/-- Reads of unknown name give finitely many known strings. -/
theorem Traced.finite_anyStrings (finite : S.Finite) :
    {s | ∃ c d labels, D c d ∧
      ((d.readValues labels none).foldl Value.join .none).string = some s}.Finite := by
  -- The strings that are read because an object of the label held them before.
  let kept (label : Label) : Set String := {s | ∃ c d labels old key, D c d ∧ label ∈ labels ∧
    c.shapes label = some old ∧ key ∉ K ∧ (old.get key).string = some s ∧
    ((d.readValues labels none).foldl Value.join .none).string = some s}
  have subsingleton : ∀ label, (kept label).Subsingleton := by
    rintro label s ⟨c, d, labels, old, key, made, inside, held, outside, known, read⟩
      t ⟨c', d', labels', old', key', made', inside', held', outside', known', read'⟩
    have member := traced.before made
    have member' := traced.before made'
    rcases chain c member c' member' with covers | covers
    · exact (traced.string_later within member' made covers held' outside' known' inside read).symm
    · exact traced.string_later within member made' covers held outside known inside' read'
  refine (finite.union ((List.finite_toSet program.labels).biUnion fun label _ =>
    (subsingleton label).finite)).subset ?_
  rintro s ⟨c, d, labels, made, read⟩
  have plain := (traced.within made).plain
  obtain ⟨v, member, known⟩ := (Value.string_foldl_join plain.readValues
    (.ofFlags rfl : Value.none.Plain) read).resolve_left nofun
  obtain ⟨shape, inside, member⟩ := List.mem_flatMap.mp member
  obtain ⟨label, labelled, found⟩ := mem_shapesOf.mp inside
  have tracked := (traced.tracked made).shapes label shape found
  rcases slot_of_mem_anyPropertyValues member with rfl | rfl | ⟨key, rfl⟩
  · exact .inl (tracked.slots .defaultNumeric nofun s known)
  · exact .inl (tracked.slots .defaultOther nofun s known)
  · by_cases written : key ∈ K
    · exact .inl (tracked.slots (.property key) (by rintro _ ⟨⟩; exact written) s known)
    · rcases tracked.kept key s written known with own | ⟨old, held, known⟩
      · exact .inl own
      · refine .inr (Set.mem_biUnion ((traced.within made).placed label shape found).1 ?_)
        exact ⟨c, d, labels, old, key, made, labelled, held, written, known, read⟩

/-- A node gives its result finitely many known strings. -/
theorem Traced.finite_gives (finite : S.Finite) (node : Node) :
    {s | ∃ c d, D c d ∧ d.Gives program node s}.Finite := by
  obtain ⟨index, block, operation⟩ := node
  cases operation with
  | constant result value =>
      have one : {s | value.value.string = some s}.Subsingleton :=
        fun s known t known' => Option.some.inj (known.symm.trans known')
      refine one.finite.subset ?_
      rintro s ⟨_, d, _, gives⟩
      cases gives with
      | ofConstant operation known =>
          cases operation
          exact known
      | _ operation => cases operation
  | readVariable result name =>
      refine (finite.union (finite_slotStrings chain within (.property (.name name)))).subset ?_
      rintro s ⟨c, d, made, gives⟩
      cases gives with
      | @ofVariable _ _ f operation known =>
          cases operation
          have plain := (traced.within made).plain
          unfold readVariable at known
          cases found : d.shapes (f.variableLabel name) with
          | none =>
              rw [found] at known
              cases known
          | some shape =>
              rw [found] at known
              exact traced.property_mem made found
                (Value.string_readAs (plain.shapes _ _ found (.property (.name name))) known)
      | _ operation => cases operation
  | readProperty result base property =>
      have keys := traced.finite_keys finite property
      have byName := keys.biUnion fun key _ =>
        finite.union (finite_slotStrings chain within (.property key))
      refine (byName.union (traced.finite_anyStrings chain within finite)).subset ?_
      rintro s ⟨c, d, made, gives⟩
      cases gives with
      | @ofProperty _ _ _ u key operation name known =>
          cases operation
          have plain := (traced.within made).plain
          have read := string_readThrough plain known
          cases key with
          | none => exact .inr ⟨c, d, _, made, read⟩
          | some key =>
              obtain ⟨v, member, known⟩ := (Value.string_foldl_join plain.readValues
                (.ofFlags rfl : Value.none.Plain) read).resolve_left nofun
              obtain ⟨shape, inside, rfl⟩ := List.mem_map.mp member
              obtain ⟨label, _, found⟩ := mem_shapesOf.mp inside
              exact .inl (Set.mem_biUnion (show key ∈ _ from ⟨c, d, made, name⟩)
                (traced.property_mem made found known))
      | _ operation => cases operation
  | binaryOperator result op lhs rhs =>
      refine (finite.image2 (· ++ ·) finite).subset ?_
      rintro s ⟨c, d, made, gives⟩
      cases gives with
      | ofOperator operation left right known =>
          cases operation
          have registers := (traced.tracked made).registers
          obtain ⟨t, u, left', right', rfl⟩ := Value.string_operator known
          exact ⟨t, registers _ _ left t left', u, registers _ _ right u right', rfl⟩
      | _ operation => cases operation
  | _ =>
      refine Set.finite_empty.subset ?_
      rintro s ⟨_, d, _, gives⟩
      cases gives <;> contradiction

end Node

/-! ### Blocks -/

variable {C : Set Contents} (chain : Chain C) (within : ∀ c ∈ C, c.Within program)

include chain within

/-- Before the first node the strings are those of the registers and of the slots that are no
    properties. -/
theorem exists_traced_nil :
    ∃ S : Set String, S.Finite ∧
      Traced program C ∅ S fun c d => c ∈ C ∧ c.run program [] = .ok d := by
  have registers := (List.finite_toSet program.results).biUnion fun r _ =>
    (strings_subsingleton chain within (.register r)).finite
  have slots := (List.finite_toSet
      [Slot.defaultNumeric, .defaultOther, .internalValue, .internalPrototype]).biUnion
    fun slot _ => finite_slotStrings chain within slot
  refine ⟨_, registers.union slots, And.left, ?_, ?_⟩
  · rintro c d ⟨member, done⟩
    obtain rfl : c = d := Except.ok.inj done
    exact within c member
  · rintro c d ⟨member, done⟩
    obtain rfl : c = d := Except.ok.inj done
    have own := within c member
    refine ⟨?_, ?_, fun _ => id⟩
    · intro r v found s known
      exact .inl (Set.mem_biUnion (own.registers r v found) ⟨c, member, v, found, known⟩)
    · intro label shape found
      have plain := own.plain.shapes label shape found
      refine ⟨?_, fun key s _ known => .inr ⟨shape, found, known⟩, ?_, fun key listed =>
        .inr ⟨shape, found, listed⟩⟩
      · intro slot inside s known
        refine .inr (Set.mem_biUnion ?_ ⟨label, (own.placed label shape found).1, c, member, _,
          at?_slot found slot, known⟩)
        cases slot with
        | property key => exact absurd (inside key rfl) (Set.notMem_empty key)
        | _ => simp
      · intro old held key _
        rw [found] at held
        cases held
        exact (plain (.property key)).absorbs_self

/-- One more node needs finitely many more keys and strings. -/
theorem Traced.exists_step {D : Contents → Contents → Prop} (traced : Traced program C K S D)
    (keys : K.Finite) (finite : S.Finite) (member : node ∈ program.nodes) :
    ∃ (K' : Set Key) (S' : Set String), K'.Finite ∧ S'.Finite ∧
      Traced program C K' S' fun c e => ∃ d, D c d ∧ d.step program node = .ok e := by
  let K' : Set Key := K ∪ {key | ∃ c d, D c d ∧ d.Writes program node key}
  let before (key : Key) : Set String :=
    {s | ∃ label ∈ program.labels, s ∈ strings C (.slot label (.property key))}
  let S' : Set String := S ∪ {s | ∃ c d, D c d ∧ d.Gives program node s} ∪ ⋃ key ∈ K', before key
  have keys' : K'.Finite := keys.union (traced.finite_writes finite node)
  have finite' : S'.Finite := (finite.union (traced.finite_gives chain within finite node)).union
    (keys'.biUnion fun key _ => finite_slotStrings chain within (.property key))
  refine ⟨K', S', keys', finite', ?_, ?_, ?_⟩
  · rintro c e ⟨d, made, _⟩
    exact traced.before made
  · rintro c e ⟨d, made, stepped⟩
    exact (traced.within made).step member (steps_of_step stepped)
  · rintro c e ⟨d, made, stepped⟩
    have own := within c (traced.before made)
    have weakened : Tracked K' S' c d := by
      refine (traced.tracked made).weaken Set.subset_union_left
        (Set.subset_union_left.trans Set.subset_union_left) ?_
      intro label old held key inside s known
      exact .inr (Set.mem_biUnion inside ⟨label, (own.placed label old held).1, c,
        traced.before made, _, at?_slot held _, known⟩)
    exact weakened.step (traced.within made).plain own.plain (steps_of_step stepped)
      (fun s gives => .inl (.inr ⟨c, d, made, gives⟩)) fun key writes => .inr ⟨c, d, made, writes⟩

/-- A block that is run on growing contents writes under finitely many keys. -/
theorem exists_tracked {nodes : List Node} (inside : ∀ node ∈ nodes, node ∈ program.nodes) :
    ∃ (K : Set Key) (S : Set String), K.Finite ∧ S.Finite ∧
      Traced program C K S fun c d => c ∈ C ∧ c.run program nodes = .ok d := by
  -- From the end of the block: a node runs on what those before it have made.
  induction nodes using List.reverseRecOn with
  | nil =>
      obtain ⟨S, finite, traced⟩ := exists_traced_nil chain within
      exact ⟨∅, S, Set.finite_empty, finite, traced⟩
  | append_singleton nodes node ih =>
      obtain ⟨K, S, keys, finite, traced⟩ :=
        ih fun other member => inside other (List.mem_append_left _ member)
      obtain ⟨K', S', keys', finite', traced'⟩ := traced.exists_step chain within keys finite
        (inside node (List.mem_append_right _ (List.mem_singleton_self node)))
      have last : ∀ {c e}, c ∈ C ∧ c.run program (nodes ++ [node]) = .ok e →
          ∃ d, (c ∈ C ∧ c.run program nodes = .ok d) ∧ d.step program node = .ok e := by
        rintro c e ⟨member, done⟩
        obtain ⟨d, first, stepped⟩ := of_run_concat done
        exact ⟨d, ⟨member, first⟩, stepped⟩
      exact ⟨K', S', keys', finite', fun made => traced'.before (last made),
        fun made => traced'.within (last made), fun made => traced'.tracked (last made)⟩

end Contents

end ScriptHeap
