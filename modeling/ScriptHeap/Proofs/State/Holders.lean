import ScriptHeap.Proofs.State.View
import ScriptHeap.Proofs.Transfer.Logic
import ScriptHeap.Proofs.Transfer.Values

/-!
# Who holds property maps and objects

A change of an object leaves its property map alone, or writes it and makes it the object's own
(`HeapObject.HeldAs`). A change of a state leaves a cell alone, or puts a cell of its own in its
place, whose object is new, a changed object of the state or a join. So a property of cells that
allows for these (`Cell.Stable`) is kept by every change of a state (`State.EachCell.change`). A
property of holders does (`Cell.Closed.stable`).

An object whose property map was written is held by nobody else: neither its map nor, in a heap, the
object itself (`HeapObject.owned_of_apply`, `State.Owns`).
-/

namespace ScriptHeap

open Fallible

/-! ### Objects -/

namespace HeapObject

/-- The property map is the object's own, or it is the map of another object, as it was there. -/
def HeldAs (o' o : HeapObject) : Prop :=
  o'.storage = .owned ∨ o'.storage = o.storage ∧ o'.shape.properties = o.shape.properties

variable {o o' : HeapObject}

theorem HeldAs.refl (o : HeapObject) : o.HeldAs o := .inr ⟨rfl, rfl⟩

theorem heldAs_of_changeSlots {f : Shape → Shape} (done : o.changeSlots f = .ok o')
    (kept : ∀ s, (f s).properties = s.properties) : o'.HeldAs o := by
  unfold changeSlots at done
  cases writable : o.writable with
  | false => simp [writable] at done
  | true =>
      simp only [writable, if_true] at done
      cases done
      exact .inr ⟨rfl, kept o.shape⟩

theorem owned_of_changeProperties {f : Shape → Shape} (done : o.changeProperties f = .ok o') :
    o'.storage = .owned := by
  unfold changeProperties at done
  cases writable : o.writable with
  | false => simp [writable] at done
  | true =>
      simp only [writable, if_true] at done
      cases done
      rfl

theorem heldAs_of_extendScope {chain : ScopeChain} {changed : Bool}
    (done : o.extendScope chain = .ok (changed, o')) : o'.HeldAs o := by
  unfold extendScope at done
  split at done
  · cases done
  · cases scope : o.shape.scope with
    | unknown =>
        simp only [scope] at done
        cases done
    | known old =>
        simp only [scope] at done
        cases done
        exact .inr ⟨rfl, rfl⟩

theorem of_map_eq_ok {α β : Type} {f : α → β} {r : Except Error α} {b : β}
    (done : r.map f = .ok b) : ∃ a, r = .ok a ∧ f a = b := by
  cases r with
  | error e => cases done
  | ok a => exact ⟨a, rfl, Except.ok.inj done⟩

end HeapObject

/-- Whether a change of an object writes its property map. -/
def ObjectChange.writesMap : ObjectChange → Bool
  | .setProperty _ _ | .setProperties _ | .setSlot (.property _) _ | .clearModified
  | .replaceLabel _ _ | .materialize _ => true
  | _ => false

namespace HeapObject

variable {o o' : HeapObject}

/-- After a change that writes the property map, the map is the object's own. -/
theorem owned_of_apply {change : ObjectChange} (writes : change.writesMap = true) {answer : Answer}
    (done : change.apply o = .ok (answer, o')) : o'.storage = .owned := by
  cases change with
  | freeze | setScope | extendScope => cases writes
  | setProperty | setProperties | clearModified | replaceLabel | materialize =>
      obtain ⟨_, changed, same⟩ := of_map_eq_ok done
      cases same
      exact owned_of_changeProperties changed
  | setSlot slot v =>
      obtain ⟨_, changed, same⟩ := of_map_eq_ok done
      cases same
      cases slot with
      | property key =>
          unfold setSlot setProperty at changed
          exact owned_of_changeProperties changed
      | _ => cases writes

/-- An object that may be changed refuses no change that writes its property map. -/
theorem apply_of_writesMap {change : ObjectChange} (writes : change.writesMap = true)
    (writable : o.writable = true) : ∃ changed, change.apply o = .ok changed := by
  have properties : ∀ f, ∃ o', o.changeProperties f = .ok o' := fun f => ⟨_, if_pos writable⟩
  have mapped : ∀ {r : Except Error HeapObject}, (∃ o', r = .ok o') →
      ∃ changed, r.map (Answer.done, ·) = .ok changed := by
    rintro _ ⟨o', rfl⟩
    exact ⟨_, rfl⟩
  cases change with
  | freeze | setScope | extendScope => cases writes
  | setProperty | setProperties | clearModified | replaceLabel | materialize =>
      exact mapped (properties _)
  | setSlot slot v =>
      cases slot with
      | property key => exact mapped (properties fun s => s.set key v)
      | _ => cases writes

theorem heldAs_of_apply {change : ObjectChange} {answer : Answer}
    (done : change.apply o = .ok (answer, o')) : o'.HeldAs o := by
  cases writes : change.writesMap with
  | true => exact .inl (owned_of_apply writes done)
  | false =>
      cases change with
      | setProperty | setProperties | clearModified | replaceLabel | materialize => cases writes
      | freeze =>
          cases done
          exact .inr ⟨rfl, rfl⟩
      | setScope =>
          obtain ⟨_, changed, same⟩ := of_map_eq_ok done
          cases same
          unfold setScope at changed
          exact heldAs_of_changeSlots changed fun _ => rfl
      | extendScope =>
          obtain ⟨⟨_, _⟩, changed, same⟩ := of_map_eq_ok done
          cases same
          exact heldAs_of_extendScope changed
      | setSlot slot v =>
          obtain ⟨_, changed, same⟩ := of_map_eq_ok done
          cases same
          cases slot with
          | property => cases writes
          | defaultNumeric | defaultOther =>
              exact heldAs_of_changeSlots (of_setDefault changed).2 fun _ => rfl
          | internalValue =>
              unfold setSlot setInternalValue at changed
              exact heldAs_of_changeSlots changed fun _ => rfl
          | internalPrototype =>
              unfold setSlot setInternalPrototype at changed
              exact heldAs_of_changeSlots changed fun _ => rfl

/-! ### Steps of a localization -/

section

variable {I : HeapObject → Prop} (resolver : Resolver Id) (template : Shape)

/-- A request leaves the object alone. -/
theorem safe_request {α : Type} (answer : Id (Except Error α)) :
    Fallible.Safe I (fun _ => True) (request answer) fun a => answer = .ok a :=
  fun _ kept => ⟨kept, fun _ same => same, fun _ _ => trivial⟩

theorem safe_reshape {f : Shape → Shape} (keeps : ∀ o, I o → I { o with shape := f o.shape }) :
    Fallible.Safe I (fun _ => True) (reshape f) fun _ => True :=
  .modify keeps

theorem safe_localizeScope
    (keeps : ∀ o scope, I o → I { o with shape := { o.shape with scope } }) :
    Fallible.Safe I (fun _ => True) (localizeScope resolver template) fun _ => True :=
  .bind .get fun _ _ =>
    .ite (.bind (safe_request _) fun _ _ => safe_reshape fun o => keeps o _) (.pure trivial)

/-- The properties are resolved together, so only what all answers have in common counts. -/
theorem safe_localizeProperties (label : Label) {Q : Value → Prop}
    (answers : ∀ o, I o → ∀ entry ∈ o.shape.properties.toList, ∀ v,
      resolver.value entry.2 (template.get entry.1) ⟨label, .property entry.1⟩ = .ok v → Q v)
    (keeps : ∀ o properties, I o → (∀ v ∈ properties.values, Q v) →
      I { o with shape := { o.shape with properties } }) :
    Fallible.Safe I (fun _ => True) (localizeProperties resolver template label) fun _ => True := by
  refine .bind .get fun o holds => ?_
  have resolving : ∀ entry ∈ o.shape.properties.toList, Fallible.Safe I (fun _ => True) (do
      let v ← request
        (resolver.value entry.2 (template.get entry.1) ⟨label, .property entry.1⟩)
      return (entry.1, v)) fun resolved => Q resolved.2 :=
    fun entry member => .bind (safe_request _) fun _ answer =>
      .pure (answers o holds entry member _ answer)
  refine .bind (.mapM _ resolving) fun resolved each => safe_reshape fun o kept => ?_
  refine keeps o _ kept fun v member => ?_
  obtain ⟨key, found⟩ := FinMap.mem_values_iff.mp member
  exact each (key, v) (FinMap.mem_of_get?_ofList found)

/-- A localization keeps what its steps keep. -/
theorem safe_localize {template : HeapObject} (label : Label)
    (listed : ∀ o o', I o →
      o.changeProperties (fun s => s.materialize template.shape.properties.keys) = .ok o' → I o')
    (slots : ∀ slot, Fallible.Safe I (fun _ => True)
      (localizeSlot resolver template.shape label slot) fun _ => True)
    (scope : ∀ o scope, I o → I { o with shape := { o.shape with scope } })
    (properties : Fallible.Safe I (fun _ => True)
      (localizeProperties resolver template.shape label) fun _ => True) :
    Fallible.Safe I (fun _ => True) (localize resolver template label) fun _ => True := by
  have put : ∀ o, I o → Fallible.Safe I (fun _ => True)
      (MonadStateOf.set o : Localizing Id PUnit) fun _ => True :=
    fun o holds _ _ => ⟨holds, fun _ _ => trivial, fun _ _ => trivial⟩
  exact
    .bind .get fun o holds =>
    .bind (.ofResult (listed o · holds) fun _ _ => trivial) fun o holds =>
    .bind (put o holds) fun _ _ =>
    .bind (slots .defaultNumeric) fun _ _ =>
    .bind (slots .defaultOther) fun _ _ =>
    .bind (slots .internalValue) fun _ _ =>
    .bind (slots .internalPrototype) fun _ _ =>
    .bind (safe_localizeScope resolver template.shape scope) fun _ _ => properties

end

/-- A step of a localization that leaves an object with a property map of its own one. -/
abbrev StaysOwned {α : Type} (x : Localizing Id α) : Prop :=
  Fallible.Safe (fun o => o.storage = .owned) (fun _ => True) x fun _ => True

theorem StaysOwned.localizeSlot (resolver : Resolver Id) (template : Shape) (label : Label)
    (slot : Slot) : StaysOwned (HeapObject.localizeSlot resolver template label slot) :=
  .bind .get fun _ _ => .bind (safe_request _) fun _ _ => safe_reshape fun _ owned => owned

/-- After a localization the property map is the object's own, also if the resolver refuses: the map
    is written first of all, and the slots are resolved on the object from then on. -/
theorem owned_of_localize (resolver : Resolver Id) (template : HeapObject) (label : Label)
    (writable : o.writable = true) :
    ((localize resolver template label).run.run o).2.storage = .owned := by
  have slots : StaysOwned _ :=
    .bind (StaysOwned.localizeSlot resolver template.shape label .defaultNumeric) fun _ _ =>
    .bind (StaysOwned.localizeSlot resolver template.shape label .defaultOther) fun _ _ =>
    .bind (StaysOwned.localizeSlot resolver template.shape label .internalValue) fun _ _ =>
    .bind (StaysOwned.localizeSlot resolver template.shape label .internalPrototype) fun _ _ =>
    .bind (safe_localizeScope resolver template.shape fun _ _ owned => owned) fun _ _ =>
    safe_localizeProperties resolver template.shape label (fun _ _ _ _ _ _ => trivial)
      fun _ _ owned _ => owned
  have written : o.changeProperties (fun s => s.materialize template.shape.properties.keys) =
      .ok { o with
        shape := o.shape.materialize template.shape.properties.keys
        storage := .owned } :=
    if_pos writable
  have got : (get : Localizing Id HeapObject).run.run o = (.ok o, o) := rfl
  unfold localize localize.liftExcept
  rw [run_bind_of_ok _ got]
  simp only [written]
  -- From here on the map is the object's own, and no later step gives it away.
  exact (slots _ rfl).1

/-- Only an object that may be changed can be localized. -/
theorem writable_of_localize {resolver : Resolver Id} {template : HeapObject} {label : Label}
    (done : ((localize resolver template label).run.run o).1 = .ok ()) : o.writable = true := by
  by_contra frozen
  have refused : o.changeProperties (fun s => s.materialize template.shape.properties.keys) =
      .error (.invariant .frozenObject) := if_neg frozen
  have got : (get : Localizing Id HeapObject).run.run o = (.ok o, o) := rfl
  unfold localize localize.liftExcept at done
  rw [run_bind_of_ok _ got] at done
  simp only [refused] at done
  cases done

end HeapObject

/-! ### States -/

/-- A property of objects, and one of the cells they are in, that the changes of states keep. -/
structure Cell.Closed (Q : HeapObject → Prop) (P : Cell → Prop) : Prop where
  owned : ∀ {o}, o.storage = .owned → Q o
  heldAs : ∀ {o o'}, Q o → o'.HeldAs o → Q o'
  alone : ∀ {o}, Q o → P ⟨o, .owned⟩
  object : ∀ {cell}, P cell → Q cell.object

theorem Cell.ready_heldAs (cell : Cell) (copyOnWriteDisabled : Bool) :
    (cell.ready copyOnWriteDisabled).HeldAs cell.object := by
  unfold ready
  split
  · exact .refl _
  · split
    · exact .inl rfl
    · exact .inr ⟨rfl, rfl⟩

/-- The values that a change of an object writes. -/
def ObjectChange.values : ObjectChange → List Value
  | .setProperty _ v | .setSlot _ v => [v]
  | .setProperties properties => properties.values
  | _ => []

/-- The values that a change of a state is given. -/
def StateChange.values : StateChange → List Value
  | .enterFunction _ arguments => arguments
  | .writeRegister _ v | .writeProperty _ _ v | .weakWriteProperty _ _ v | .writeAnyProperty _ v
  | .writeVariable _ _ v => [v]
  | .changeObject _ change => change.values
  | _ => []

/-- Values that may be written: a write marks them, and joins them to what is there. -/
structure Value.WriteClosed (allowed : Value → Prop) : Prop where
  undefined : allowed .undefined
  join : ∀ {v w}, allowed v → allowed w → allowed (v.join w)
  joinAbsent : ∀ {v}, allowed v → allowed v.joinAbsent
  joinModified : ∀ {v}, allowed v → allowed v.joinModified

/-- A property of cells that is kept by all that a state does to its cells, as long as it writes
    allowed values: it puts new objects into them, takes an object over and changes it, joins two
    objects, and freezes an object. -/
structure Cell.Stable (allowed : Value → Prop) (P : Cell → Prop) : Prop where
  values : Value.WriteClosed allowed
  slots : ∀ {o}, P ⟨o, .owned⟩ → o.shape.Each allowed
  new : ∀ {ι : Type} (key : ι → Key) (value : ι → Value) (items : List ι),
    (∀ item ∈ items, allowed (value item)) →
    P ⟨.ofShape (items.foldl (fun s item => s.set (key item) (value item)) .absentModified), .owned⟩
  ready : ∀ {cell} copyOnWriteDisabled, P cell → P ⟨cell.ready copyOnWriteDisabled, .owned⟩
  change : ∀ {o o' answer} (change : ObjectChange), (∀ v ∈ change.values, allowed v) →
    P ⟨o, .owned⟩ → change.apply o = .ok (answer, o') → P ⟨o', .owned⟩
  join : ∀ {cell cell'}, P cell → P cell' → P ⟨cell.object.join cell'.object, .owned⟩
  frozen : ∀ {cell}, P cell → P cell.frozen

theorem Value.writeClosed_any : WriteClosed fun _ => True :=
  ⟨trivial, fun _ _ => trivial, fun _ => trivial, fun _ => trivial⟩

theorem Cell.Closed.stable {Q : HeapObject → Prop} {P : Cell → Prop} (closed : Cell.Closed Q P) :
    Cell.Stable (fun _ => True) P where
  values := Value.writeClosed_any
  slots _ _ := trivial
  new _ _ _ _ := closed.alone (closed.owned rfl)
  ready copyOnWriteDisabled holds :=
    closed.alone (closed.heldAs (closed.object holds) (Cell.ready_heldAs _ copyOnWriteDisabled))
  change _ _ holds done :=
    closed.alone (closed.heldAs (closed.object holds) (HeapObject.heldAs_of_apply done))
  join _ _ := closed.alone (closed.owned rfl)
  frozen holds := by
    unfold Cell.frozen
    split
    · exact closed.alone (closed.heldAs (closed.object holds) (.inr ⟨rfl, rfl⟩))
    · exact holds

namespace State

/-- What a change of an object under a label does. -/
theorem of_modifyObject {s s' : State} {label : Label} {f : HeapObject → Except Error HeapObject}
    (done : s.modifyObject label f = .ok s') :
    ∃ cell o, s.heap.get? label = some cell ∧ f (cell.ready s.copyOnWriteDisabled) = .ok o ∧
      s' = { s with heap := s.heap.insert label ⟨o, .owned⟩ } := by
  unfold modifyObject at done
  cases found : s.heap.get? label with
  | none =>
      simp only [found] at done
      cases done
  | some cell =>
      simp only [found] at done
      obtain ⟨o, changed, done⟩ := of_bind_eq_ok done
      exact ⟨cell, o, rfl, changed, (Except.ok.inj done).symm⟩

/-- A change that an object may refuse is one that cannot fail. -/
theorem modifyObject_of_editObject {s s' : State} {label : Label}
    {change : HeapObject → Answer × HeapObject} {answer : Answer}
    (done : s.editObject label change = .ok (answer, s')) :
    s.modifyObject label (fun o => .ok (change o).2) = .ok s' := by
  unfold editObject at done
  unfold modifyObject
  cases found : s.heap.get? label with
  | none =>
      simp only [found] at done
      cases done
  | some cell =>
      simp only [found] at done
      cases done
      rfl

/-- Every cell of the heap has the property. -/
def EachCell (P : Cell → Prop) (s : State) : Prop :=
  ∀ label cell, s.heap.get? label = some cell → P cell

/-- A change of a state has the property in every cell that it leaves. -/
abbrev Keeps (P : Cell → Prop) (r : Except Error State) : Prop := ∀ s', r = .ok s' → s'.EachCell P

namespace EachCell

variable {allowed : Value → Prop} {P : Cell → Prop} {s : State}

theorem insert (each : s.EachCell P) (label : Label) {cell : Cell} (holds : P cell) :
    ({ s with heap := s.heap.insert label cell } : State).EachCell P := by
  intro other found held
  rw [FinMap.get?_insert] at held
  split at held
  · cases held
    exact holds
  · exact each other found held

variable (stable : Cell.Stable allowed P)

include stable

theorem modifyObject (each : s.EachCell P) (label : Label)
    {f : HeapObject → Except Error HeapObject}
    (change : ∀ o o', P ⟨o, .owned⟩ → f o = .ok o' → P ⟨o', .owned⟩) :
    Keeps P (s.modifyObject label f) := by
  intro s' done
  obtain ⟨cell, o, found, changed, rfl⟩ := of_modifyObject done
  exact each.insert label (change _ o (stable.ready _ (each label cell found)) changed)

theorem newObject (each : s.EachCell P) (label : Label) {o : HeapObject} (holds : P ⟨o, .owned⟩) :
    (s.newObject label o).EachCell P := by
  apply each.insert label
  cases held : s.object? label with
  | none => exact holds
  | some existing =>
      obtain ⟨cell, found, rfl⟩ := Option.map_eq_some_iff.mp held
      exact stable.join (each label cell found) holds

theorem ensureObject (each : s.EachCell P) (label : Label) : (s.ensureObject label).EachCell P := by
  unfold State.ensureObject
  split
  · exact each
  · exact each.insert label (stable.new Prod.fst Prod.snd [] (List.forall_mem_nil _))

theorem attempt (each : s.EachCell P) (label : Label) {change : ObjectChange}
    (values : ∀ v ∈ change.values, allowed v) :
    Keeps P (s.modifyObject label fun o => .ok (change.attempt o).2) := by
  apply modifyObject stable each
  rintro o _ holds ⟨⟩
  unfold ObjectChange.attempt
  cases tried : change.apply o with
  | error e => exact holds
  | ok changed => exact stable.change change values holds tried

omit stable in
theorem foldlM {ι : Type} {f : State → ι → Except Error State} (items : List ι)
    (step : ∀ item s, s.EachCell P → Keeps P (f s item)) (each : s.EachCell P) :
    Keeps P (items.foldlM f s) := by
  induction items generalizing s with
  | nil =>
      rintro _ ⟨⟩
      exact each
  | cons item rest ih =>
      intro s' done
      rw [List.foldlM_cons] at done
      obtain ⟨s₁, first, done⟩ := of_bind_eq_ok done
      exact ih (step item s each s₁ first) s' done

theorem storeProperty (each : s.EachCell P) (strong : Bool) (key : Key) {v : Value}
    (value : allowed v) (label : Label) : Keeps P (State.storeProperty strong key v s label) := by
  apply modifyObject stable (ensureObject stable each label)
  intro o o' holds done
  refine stable.change (.setProperty key _) (List.forall_mem_singleton.mpr ?_) holds
    (congrArg (Except.map (Answer.done, ·)) done)
  split
  · exact value
  · exact stable.values.join (stable.slots holds (.property key)) value

theorem storeProperties (each : s.EachCell P) (strong : Bool) (key : Key) {v : Value}
    (value : allowed v) (labels : List Label) :
    Keeps P (labels.foldlM (State.storeProperty strong key v) s) :=
  foldlM _ (fun label _ holds => storeProperty stable holds strong key value label) each

/-- A write of all properties is three changes of an object. -/
theorem storeAnyProperty (each : s.EachCell P) {v : Value} (value : allowed v) (label : Label) :
    Keeps P (State.storeAnyProperty v s label) := by
  unfold State.storeAnyProperty
  split
  · apply modifyObject stable each
    intro o o' holds done
    obtain ⟨o₁, numeric, done⟩ := of_bind_eq_ok done
    obtain ⟨o₂, other, listed⟩ := of_bind_eq_ok done
    have join : ∀ {w}, allowed w → allowed (w.join v) := fun old => stable.values.join old value
    have holds₁ := stable.change (.setSlot .defaultNumeric _)
      (List.forall_mem_singleton.mpr (join (stable.slots holds .defaultNumeric))) holds
      (congrArg (Except.map (Answer.done, ·)) numeric)
    have holds₂ := stable.change (.setSlot .defaultOther _)
      (List.forall_mem_singleton.mpr (join (stable.slots holds₁ .defaultOther))) holds₁
      (congrArg (Except.map (Answer.done, ·)) other)
    refine stable.change (.setProperties _) ?_ holds₂
      (congrArg (Except.map (Answer.done, ·)) listed)
    intro w member
    obtain ⟨key, found⟩ := FinMap.mem_values_iff.mp member
    rw [FinMap.get?_mapValues] at found
    obtain ⟨old, held, rfl⟩ := Option.map_eq_some_iff.mp found
    exact join ((stable.slots holds₂).value (FinMap.mem_values_iff.mpr ⟨key, held⟩))
  · rintro _ ⟨⟩
    exact each

theorem freezeHeap (each : s.EachCell P) : s.freezeHeap.EachCell P := by
  intro label cell found
  have mapped : (s.heap.mapValues Cell.frozen).get? label = some cell := found
  rw [FinMap.get?_mapValues] at mapped
  obtain ⟨old, held, rfl⟩ := Option.map_eq_some_iff.mp mapped
  exact stable.frozen (each label old held)

theorem enterFunction (each : s.EachCell P) (t : Interner) (f : Function)
    {arguments : List Value} (values : ∀ v ∈ arguments, allowed v) :
    (s.enterFunction t f arguments).1.EachCell P := by
  have missing := stable.values.joinModified stable.values.undefined
  have marked : ∀ v ∈ arguments, allowed v.joinModified :=
    fun v member => stable.values.joinModified (values v member)
  unfold State.enterFunction
  split
  · exact each
  · exact newObject stable
      (newObject stable each _ (stable.new _ _ _ (activation_slot missing marked f))) _
      (stable.new _ _ _ fun i _ => argument_slot missing marked i)

/-- A join has the cells of its first state, joined ones, and frozen cells of the second. -/
theorem join (each : s.EachCell P) {other : State} (others : other.EachCell P) :
    (s.join other).2.EachCell P := by
  intro label cell found
  rw [join_eq] at found
  have merged : (mergeCell.run (s.heap, false) other.heap.toList).1.get? label = some cell := found
  rw [Merge.get?_run] at merged
  cases foreign : other.heap.get? label with
  | none =>
      rw [foreign] at merged
      exact each label cell merged
  | some theirs =>
      rw [foreign] at merged
      cases own : s.heap.get? label with
      | none =>
          rw [own] at merged
          cases merged
          exact stable.frozen (others label theirs foreign)
      | some ours =>
          rw [own] at merged
          simp only [mergeCell] at merged
          split at merged
          · cases merged
            exact each label _ own
          · cases merged
            exact stable.change .freeze nofun (stable.join (each label ours own)
              (others label theirs foreign)) rfl

/-- Every change of a state that is given allowed values keeps a stable property of its cells. -/
theorem change (each : s.EachCell P) {t : Interner} {change : StateChange}
    (values : ∀ v ∈ change.values, allowed v) {answer : Answer} {s' : State}
    (done : (change.apply t s).1 = .ok (answer, s')) : s'.EachCell P := by
  have written : ∀ {v}, v ∈ change.values → allowed v.joinModified :=
    fun member => stable.values.joinModified (values _ member)
  cases change with
  | enterFunction f arguments =>
      cases done
      exact enterFunction stable each t f values
  | writeRegister | addMustDef | addMustEquals =>
      cases done
      exact each
  | freezeHeap =>
      cases done
      exact freezeHeap stable each
  | touch label =>
      obtain ⟨_, touched, same⟩ := HeapObject.of_map_eq_ok done
      cases same
      refine modifyObject stable each label ?_ _ touched
      rintro o _ holds ⟨⟩
      exact holds
  | changeObject label change =>
      exact attempt stable each label values _ (modifyObject_of_editObject done)
  | writeProperty labels key v | weakWriteProperty labels key v =>
      obtain ⟨_, stored, same⟩ := HeapObject.of_map_eq_ok done
      cases same
      exact storeProperties stable each _ key (written List.mem_cons_self) _ _ stored
  | writeAnyProperty labels v =>
      obtain ⟨_, stored, same⟩ := HeapObject.of_map_eq_ok done
      cases same
      have value := stable.values.joinModified
        (stable.values.joinAbsent (values v List.mem_cons_self))
      exact foldlM _ (fun label _ holds => storeAnyProperty stable holds value label) each _ stored
  | writeVariable f name v =>
      obtain ⟨_, answered, same⟩ := HeapObject.of_map_eq_ok done
      cases same
      obtain ⟨s', stored, same⟩ := HeapObject.of_map_eq_ok answered
      subst same
      exact storeProperties stable each _ _ (written List.mem_cons_self) _ s' stored

end EachCell

/-! ### Written objects -/

/-- The state has an object under the label that nobody else holds, with a property map that nobody
    else holds. -/
def Owns (s : State) (label : Label) : Prop :=
  ∃ cell, s.heap.get? label = some cell ∧ cell.storage = .owned ∧ cell.object.storage = .owned

theorem owns_insert {s : State} {label : Label} {o : HeapObject} (owned : o.storage = .owned) :
    ({ s with heap := s.heap.insert label ⟨o, .owned⟩ } : State).Owns label :=
  ⟨⟨o, .owned⟩, FinMap.get?_insert_self _ _ _, rfl, owned⟩

/-- A change that writes the property map of one object owns it, and leaves the others alone. -/
theorem owns_of_modifyObject {s s' : State} {label : Label}
    {f : HeapObject → Except Error HeapObject}
    (writes : ∀ o o', f o = .ok o' → o'.storage = .owned)
    (done : s.modifyObject label f = .ok s') :
    s'.Owns label ∧ ∀ other, s.Owns other → s'.Owns other := by
  obtain ⟨cell, o, found, changed, rfl⟩ := of_modifyObject done
  have owned := writes _ o changed
  refine ⟨owns_insert owned, ?_⟩
  rintro other ⟨held, stored, alone⟩
  by_cases same : other = label
  · exact same ▸ owns_insert owned
  · exact ⟨held, (FinMap.get?_insert_of_ne _ same _).trans stored, alone⟩

/-- An object that is made ready refuses no change that writes its property map. -/
theorem owns_of_editObject {s s' : State} {label : Label} {change : ObjectChange}
    (writes : change.writesMap = true) {answer : Answer}
    (done : s.editObject label change.attempt = .ok (answer, s')) : s'.Owns label := by
  obtain ⟨cell, o, _, changed, rfl⟩ := of_modifyObject (modifyObject_of_editObject done)
  cases changed
  apply owns_insert
  obtain ⟨made, applied⟩ :=
    HeapObject.apply_of_writesMap writes (writable_ready cell s.copyOnWriteDisabled)
  unfold ObjectChange.attempt
  rw [applied]
  exact HeapObject.owned_of_apply writes applied

theorem contains_of_modifyObject {s s' : State} {label : Label}
    {f : HeapObject → Except Error HeapObject} (done : s.modifyObject label f = .ok s')
    (other : Label) (held : s.heap.contains other = true) : s'.heap.contains other = true := by
  obtain ⟨cell, o, _, _, rfl⟩ := of_modifyObject done
  rw [FinMap.contains_eq_true_iff] at held ⊢
  by_cases same : other = label
  · subst same
    exact ⟨_, FinMap.get?_insert_self _ _ _⟩
  · exact held.imp fun _ found => (FinMap.get?_insert_of_ne _ same _).trans found

theorem owns_of_storeProperty {strong : Bool} {key : Key} {v : Value} {s s' : State} {label : Label}
    (done : storeProperty strong key v s label = .ok s') :
    s'.Owns label ∧ ∀ other, s.Owns other → s'.Owns other := by
  obtain ⟨owns, kept⟩ := owns_of_modifyObject
    (fun o o' done => HeapObject.owned_of_changeProperties done) done
  refine ⟨owns, ?_⟩
  rintro other ⟨held, stored, alone⟩
  apply kept other
  unfold ensureObject
  split
  · exact ⟨held, stored, alone⟩
  · rename_i missing
    have distinct : other ≠ label := by
      rintro rfl
      exact missing (by simp [FinMap.contains, stored])
    exact ⟨held, (FinMap.get?_insert_of_ne _ distinct _).trans stored, alone⟩

theorem owns_of_storeAnyProperty {v : Value} {s s' : State} {label : Label}
    (done : storeAnyProperty v s label = .ok s') :
    (s.heap.contains label = true → s'.Owns label) ∧ ∀ other,
      (s.Owns other → s'.Owns other) ∧
      (s.heap.contains other = true → s'.heap.contains other = true) := by
  unfold storeAnyProperty at done
  split at done
  · have writes : ∀ o o' : HeapObject, (do
        let o ← o.setDefaultNumeric (o.shape.defaultNumeric.join v)
        let o ← o.setDefaultOther (o.shape.defaultOther.join v)
        o.setProperties (o.shape.properties.mapValues (·.join v))) = .ok o' →
        o'.storage = .owned := by
      intro o o' done
      obtain ⟨o₁, _, done⟩ := of_bind_eq_ok done
      obtain ⟨o₂, _, done⟩ := of_bind_eq_ok done
      exact HeapObject.owned_of_changeProperties done
    obtain ⟨owns, kept⟩ := owns_of_modifyObject writes done
    exact ⟨fun _ => owns, fun other => ⟨kept other, contains_of_modifyObject done other⟩⟩
  · cases done
    exact ⟨fun held => absurd held ‹_›, fun _ => ⟨id, id⟩⟩

/-- A loop over labels owns every label that meets a condition, if each step owns its label where
    the condition is met, and neither disowns a label nor ends the condition of one. -/
theorem owns_of_foldlM {C : State → Label → Prop} {f : State → Label → Except Error State}
    {labels : List Label}
    (step : ∀ s s' label, f s label = .ok s' → (C s label → s'.Owns label) ∧
      ∀ other, (s.Owns other → s'.Owns other) ∧ (C s other → C s' other))
    {s s' : State} (done : labels.foldlM f s = .ok s') :
    (∀ label ∈ labels, C s label → s'.Owns label) ∧ ∀ other, s.Owns other → s'.Owns other := by
  induction labels generalizing s with
  | nil =>
      cases done
      exact ⟨fun _ member => absurd member List.not_mem_nil, fun _ owns => owns⟩
  | cons label rest ih =>
      rw [List.foldlM_cons] at done
      obtain ⟨s₁, first, done⟩ := of_bind_eq_ok done
      obtain ⟨owns, kept⟩ := step s s₁ label first
      obtain ⟨later, keptLater⟩ := ih done
      constructor
      · intro other member meets
        rcases List.mem_cons.mp member with rfl | member
        · exact keptLater other (owns meets)
        · exact later other member ((kept other).2 meets)
      · intro other held
        exact keptLater other ((kept other).1 held)

theorem owns_of_storeAll {strong : Bool} {key : Key} {v : Value} {labels : List Label}
    {s s' : State}
    (done : labels.foldlM (storeProperty strong key v) s = .ok s') :
    ∀ label ∈ labels, s'.Owns label := by
  have loop := owns_of_foldlM (C := fun _ _ => True) (fun s s' label stored => by
    obtain ⟨owns, kept⟩ := owns_of_storeProperty stored
    exact ⟨fun _ => owns, fun other => ⟨kept other, id⟩⟩) done
  exact fun label member => loop.1 label member trivial

end State

/-- The labels of a state whose property maps a change writes. -/
def StateChange.writes (s : State) : StateChange → List Label
  | .changeObject label change => if change.writesMap then [label] else []
  | .writeProperty labels _ _ | .weakWriteProperty labels _ _ => labels.toList
  | .writeAnyProperty labels _ => labels.toList.filter s.heap.contains
  | .writeVariable f name _ => [(State.variableObject .initial f name).1]
  | _ => []

namespace State

/-- After a change of a state, the objects whose property maps it writes are held by nobody else,
    and neither are their maps. -/
theorem owns_of_apply {t : Interner} {s s' : State} {change : StateChange} {answer : Answer}
    (done : (change.apply t s).1 = .ok (answer, s')) :
    ∀ label ∈ change.writes s, s'.Owns label := by
  intro label member
  cases change with
  | enterFunction | writeRegister | addMustDef | addMustEquals | touch | freezeHeap =>
      exact absurd member List.not_mem_nil
  | changeObject other change =>
      cases writes : change.writesMap with
      | false => simp [StateChange.writes, writes] at member
      | true =>
          simp only [StateChange.writes, writes, if_true, List.mem_singleton] at member
          subst member
          exact owns_of_editObject writes done
  | writeProperty labels key v =>
      obtain ⟨_, written, same⟩ := HeapObject.of_map_eq_ok done
      cases same
      exact owns_of_storeAll written label member
  | weakWriteProperty labels key v =>
      obtain ⟨_, written, same⟩ := HeapObject.of_map_eq_ok done
      cases same
      exact owns_of_storeAll written label member
  | writeAnyProperty labels v =>
      obtain ⟨_, written, same⟩ := HeapObject.of_map_eq_ok done
      cases same
      obtain ⟨listed, held⟩ := List.mem_filter.mp member
      exact (owns_of_foldlM (fun _ _ _ stored => owns_of_storeAnyProperty stored) written).1 label
        listed held
  | writeVariable f name v =>
      obtain ⟨_, written, same⟩ := HeapObject.of_map_eq_ok done
      cases same
      obtain ⟨_, stored, same⟩ := HeapObject.of_map_eq_ok written
      subst same
      apply owns_of_storeAll stored
      rw [List.mem_singleton.mp member, variableObject_fst .initial t]
      exact List.mem_singleton.mpr rfl

end State

end ScriptHeap
