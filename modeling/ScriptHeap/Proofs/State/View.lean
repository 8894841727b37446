import ScriptHeap.Proofs.Transfer.Lockstep
import ScriptHeap.Report.Heap
import ScriptHeap.Session.Command

/-!
# What can be seen of objects and states

The view of an object is its shape and whether it may be changed; the view of a state is its
registers, the views of its objects, its place and its facts. Who holds a property map or an object
is not part of a view, and neither is how a state copies an object before it changes it.

Two objects, or two states, are twins if their views are the same. No operation can tell twins
apart: it fails on both with the same error, or gives results that are twins, with the same answer.
The one exception is a question for the holders of a property map. Reports on twins are equal.
-/

namespace ScriptHeap

open Fallible

/-! ### Objects -/

/-- What can be seen of an object. -/
structure ObjectView where
  shape : Shape
  writable : Bool

namespace HeapObject

/-- The object without the holders of its property map. -/
def view (o : HeapObject) : ObjectView := ⟨o.shape, o.writable⟩

/-- The objects look the same. -/
def Twin (o p : HeapObject) : Prop := o.view = p.view

namespace Twin

variable {o p : HeapObject}

theorem refl (o : HeapObject) : o.Twin o := rfl

/-- Twins have the same shape. -/
theorem shape (twin : o.Twin p) : o.shape = p.shape := congrArg ObjectView.shape twin

theorem writable (twin : o.Twin p) : o.writable = p.writable := congrArg ObjectView.writable twin

theorem of_eq (shape : o.shape = p.shape) (writable : o.writable = p.writable) : o.Twin p := by
  unfold Twin view
  rw [shape, writable]

theorem report (twin : o.Twin p) : o.report = p.report := by
  unfold HeapObject.report
  rw [twin.shape, twin.writable]

theorem profile (twin : o.Twin p) : o.profile = p.profile := by
  unfold HeapObject.profile
  rw [twin.shape, twin.report]

/-! Changes of twins. -/

section Changes

variable (twin : o.Twin p)

include twin

theorem changeSlots (f : Shape → Shape) : Concur Twin (o.changeSlots f) (p.changeSlots f) := by
  unfold HeapObject.changeSlots
  rw [twin.writable, twin.shape]
  split
  · exact .ok (of_eq rfl rfl)
  · exact .error _

/-- Twins accept the same changes, and are twins afterwards. -/
theorem changeProperties (f : Shape → Shape) :
    Concur Twin (o.changeProperties f) (p.changeProperties f) := by
  unfold HeapObject.changeProperties
  rw [twin.writable, twin.shape]
  split
  · exact .ok (of_eq rfl rfl)
  · exact .error _

/-- Twins refuse the same defaults. -/
theorem setDefault (numeric : Bool) (v : Value) :
    Concur Twin (o.setDefault numeric v) (p.setDefault numeric v) := by
  unfold HeapObject.setDefault
  rw [twin.writable]
  split
  · exact .error _
  · split
    · exact .error _
    · exact twin.changeSlots _

theorem setSlot (slot : Slot) (v : Value) : Concur Twin (o.setSlot slot v) (p.setSlot slot v) := by
  cases slot with
  | property key => exact twin.changeProperties fun s => s.set key v
  | defaultNumeric => exact twin.setDefault true v
  | defaultOther => exact twin.setDefault false v
  | internalValue => exact twin.changeSlots fun s => { s with internalValue := v }
  | internalPrototype => exact twin.changeSlots fun s => { s with internalPrototype := v }

theorem extendScope (chain : ScopeChain) :
    Concur (fun a b => a.1 = b.1 ∧ a.2.Twin b.2) (o.extendScope chain) (p.extendScope chain) := by
  unfold HeapObject.extendScope
  rw [twin.writable, twin.shape]
  split
  · exact .error _
  · cases p.shape.scope with
    | unknown => exact .error _
    | known old => exact .ok ⟨rfl, of_eq rfl rfl⟩

/-- The answers of a change are equal, and the changed objects are twins. -/
theorem change (change : ObjectChange) :
    Concur (fun a b => a.1 = b.1 ∧ a.2.Twin b.2) (change.apply o) (change.apply p) := by
  cases change with
  | freeze => exact .ok ⟨rfl, of_eq twin.shape rfl⟩
  | setProperty | setProperties | clearModified | replaceLabel | materialize =>
      exact (twin.changeProperties _).map fun _ _ same => ⟨rfl, same⟩
  | setScope => exact (twin.changeSlots _).map fun _ _ same => ⟨rfl, same⟩
  | setSlot slot v => exact (twin.setSlot slot v).map fun _ _ same => ⟨rfl, same⟩
  | extendScope chain =>
      exact (twin.extendScope chain).map fun _ _ same => ⟨congrArg Answer.truth same.1, same.2⟩

/-- A change is answered alike on twins, also where it is refused. -/
theorem attempt (change : ObjectChange) :
    (change.attempt o).1 = (change.attempt p).1 ∧
      (change.attempt o).2.Twin (change.attempt p).2 := by
  have changed := twin.change change
  unfold ObjectChange.attempt
  generalize change.apply o = r, change.apply p = r' at changed
  cases changed with
  | error e => exact ⟨rfl, twin⟩
  | ok same => exact same

end Changes

end Twin

/-! Localization works on a machine whose state is the object. -/

namespace Twin

variable (resolver : Resolver Id)

theorem reshape (f : Shape → Shape) :
    Lockstep Twin (HeapObject.reshape f : Localizing Id Unit) (HeapObject.reshape f) Eq :=
  .modify fun _ _ twin => of_eq (congrArg f twin.shape) twin.writable

theorem request {α : Type} (answer : Id (Except Error α)) :
    Lockstep Twin (HeapObject.request answer) (HeapObject.request answer) Eq :=
  fun _ _ twin => ⟨twin, .refl (fun _ => rfl) answer⟩

theorem localizeSlot (template : Shape) (label : Label) (slot : Slot) :
    Lockstep Twin (HeapObject.localizeSlot resolver template label slot)
      (HeapObject.localizeSlot resolver template label slot) Eq := by
  refine .bind .get fun o p twin => ?_
  rw [twin.shape]
  refine .bind (request _) fun v _ same => ?_
  rw [same]
  exact reshape _

theorem localizeScope (template : Shape) :
    Lockstep Twin (HeapObject.localizeScope resolver template)
      (HeapObject.localizeScope resolver template) Eq := by
  refine .bind .get fun o p twin => ?_
  rw [twin.shape]
  dsimp only
  split
  · refine .bind (request _) fun chain _ same => ?_
    rw [same]
    exact reshape _
  · exact .pure rfl

/-- Localization asks for the same keys of twins and writes the same answers. -/
theorem localizeProperties (template : Shape) (label : Label) :
    Lockstep Twin (HeapObject.localizeProperties resolver template label)
      (HeapObject.localizeProperties resolver template label) Eq := by
  refine .bind .get fun o p twin => ?_
  rw [twin.shape]
  refine .bind (.mapM _ fun entry => ?_) fun resolved _ same => ?_
  · refine .bind (request _) fun v _ same => .pure ?_
    rw [same]
  · rw [same]
    exact reshape _

/-- Localizing twins against twins, whatever the resolver answers. -/
theorem localize {template template' : HeapObject} (templates : template.Twin template')
    (label : Label) :
    Lockstep Twin (HeapObject.localize resolver template label)
      (HeapObject.localize resolver template' label) Eq := by
  unfold HeapObject.localize
  rw [templates.shape]
  refine .bind .get fun o p twin => ?_
  refine .bind (.ofResult (twin.changeProperties _)) fun changed changed' same => ?_
  refine .bind (.modifyGet fun _ _ _ => ⟨rfl, same⟩) fun _ _ _ => ?_
  exact .bind (localizeSlot resolver _ label _) fun _ _ _ =>
    .bind (localizeSlot resolver _ label _) fun _ _ _ =>
    .bind (localizeSlot resolver _ label _) fun _ _ _ =>
    .bind (localizeSlot resolver _ label _) fun _ _ _ =>
    .bind (localizeScope resolver _) fun _ _ _ => localizeProperties resolver _ label

end Twin

end HeapObject

/-! ### States -/

/-- What can be seen of a state. -/
structure StateView where
  registers : FinMap Register Value
  heap : FinMap Label ObjectView
  context : CallString
  function : Nat
  mustDefs : FinMap Register Nat
  mustEquals : FinMap Register (Label × Key)

/-- Whether a change answers who holds a property map. -/
def StateChange.asksHolders : StateChange → Bool
  | .touch _ => true
  | _ => false

/-- The object of a cell, without its holders. -/
def Cell.view (cell : Cell) : ObjectView := cell.object.view

namespace State

/-- The state without the holders of its objects. -/
def view (s : State) : StateView :=
  ⟨s.registers, s.heap.mapValues Cell.view, s.context, s.function, s.mustDefs, s.mustEquals⟩

/-- The states look the same. -/
def Twin (s t : State) : Prop := s.view = t.view

@[simp] theorem writable_frozen (cell : Cell) : cell.frozen.object.writable = false := by
  unfold Cell.frozen
  cases writable : cell.object.writable with
  | true => rfl
  | false => exact writable

/-- Frozen cells of twins look the same, whoever held them. -/
theorem view_frozen {c d : Cell} (same : c.object.Twin d.object) :
    c.frozen.view = d.frozen.view := by
  apply HeapObject.Twin.of_eq
  · rw [shape_frozen, shape_frozen, same.shape]
  · rw [writable_frozen, writable_frozen]

/-- What becomes of an object under a label where an object of another state is joined to it. -/
theorem view_mergeCell {own own' : Option Cell} {c d : Cell}
    (owns : own.map Cell.view = own'.map Cell.view) (same : c.object.Twin d.object) :
    (mergeCell own c <|> own).map Cell.view = (mergeCell own' d <|> own').map Cell.view := by
  cases own with
  | none =>
      rw [Option.map_eq_none_iff.mp owns.symm]
      exact congrArg some (view_frozen same)
  | some old =>
      obtain ⟨old', rfl, view⟩ := Option.map_eq_some_iff.mp owns.symm
      have olds : old.object.Twin old'.object := view.symm
      have joined : old.object.join c.object = old'.object.join d.object := by
        unfold HeapObject.join
        rw [olds.shape, same.shape]
      have merged : mergeCell (some old) c = mergeCell (some old') d := by
        unfold mergeCell
        dsimp only
        rw [joined, olds.shape, same.shape]
      rw [merged]
      cases mergeCell (some old') d with
      | none => exact owns
      | some cell => rfl

namespace Twin

variable {s t : State}

theorem symm (twin : s.Twin t) : t.Twin s := Eq.symm twin

theorem trans {u : State} (first : s.Twin t) (second : t.Twin u) : s.Twin u := Eq.trans first second

theorem of_fields (registers : s.registers = t.registers)
    (cells : ∀ label, (s.heap.get? label).map Cell.view = (t.heap.get? label).map Cell.view)
    (context : s.context = t.context) (function : s.function = t.function)
    (mustDefs : s.mustDefs = t.mustDefs) (mustEquals : s.mustEquals = t.mustEquals) : s.Twin t := by
  have heaps : s.heap.mapValues Cell.view = t.heap.mapValues Cell.view :=
    FinMap.mapValues_eq_iff.mpr cells
  unfold Twin view
  rw [heaps, registers, context, function, mustDefs, mustEquals]

section Fields

variable (twin : s.Twin t)

include twin

theorem registers : s.registers = t.registers := congrArg StateView.registers twin

theorem context : s.context = t.context := congrArg StateView.context twin

theorem function : s.function = t.function := congrArg StateView.function twin

theorem mustDefs : s.mustDefs = t.mustDefs := congrArg StateView.mustDefs twin

theorem mustEquals : s.mustEquals = t.mustEquals := congrArg StateView.mustEquals twin

theorem heap : s.heap.mapValues Cell.view = t.heap.mapValues Cell.view :=
  congrArg StateView.heap twin

/-- Under each label the two heaps look the same. -/
theorem cell (label : Label) :
    (s.heap.get? label).map Cell.view = (t.heap.get? label).map Cell.view :=
  FinMap.mapValues_eq_iff.mp twin.heap label

/-- Twins have objects under the same labels, and these are twins. -/
theorem cell_cases (label : Label) :
    s.heap.get? label = none ∧ t.heap.get? label = none ∨
    ∃ c d, s.heap.get? label = some c ∧ t.heap.get? label = some d ∧ c.object.Twin d.object :=
  FinMap.get?_cases_of_mapValues_eq twin.heap label

theorem contains (label : Label) : s.heap.contains label = t.heap.contains label := by
  unfold FinMap.contains
  rcases twin.cell_cases label with ⟨none, none'⟩ | ⟨c, d, found, found', _⟩
  · rw [none, none']
  · rw [found, found']
    rfl

/-- Twins have the same contents. -/
theorem contents : s.contents = t.contents := by
  refine Contents.ext (by rw [State.contents, State.contents, twin.registers]) ?_ twin.function
  funext label
  show (s.object? label).map HeapObject.shape = (t.object? label).map HeapObject.shape
  unfold object?
  rcases twin.cell_cases label with ⟨none, none'⟩ | ⟨c, d, found, found', same⟩
  · rw [none, none']
  · simp only [found, found', Option.map_some, same.shape]

/-- Put other heaps that look the same in the place of those of twins. -/
theorem withHeap {h k : FinMap Label Cell}
    (same : ∀ label, (h.get? label).map Cell.view = (k.get? label).map Cell.view) :
    ({ s with heap := h } : State).Twin { t with heap := k } :=
  of_fields twin.registers same twin.context twin.function twin.mustDefs twin.mustEquals

theorem insert (label : Label) {c d : Cell} (same : c.view = d.view) :
    ({ s with heap := s.heap.insert label c } : State).Twin
      { t with heap := t.heap.insert label d } := by
  apply twin.withHeap
  intro other
  rw [FinMap.get?_insert, FinMap.get?_insert]
  split
  · exact congrArg some same
  · exact twin.cell other

/-! Reading twins. -/

theorem readRegister (r : Register) : s.readRegister r = t.readRegister r := by
  unfold State.readRegister
  rw [twin.registers]

theorem readProperty (labels : LabelSet) (key : Key) :
    s.readProperty labels key = t.readProperty labels key := by
  rw [readProperty_contents, readProperty_contents, twin.contents]

theorem readAnyProperty (labels : LabelSet) :
    s.readAnyProperty labels = t.readAnyProperty labels := by
  rw [readAnyProperty_contents, readAnyProperty_contents, twin.contents]

/-- Variables of twins read the same. -/
theorem readVariable (i : Interner) (f : Function) (name : String) :
    s.readVariable i f name = t.readVariable i f name := by
  refine Prod.ext ?_ rfl
  rw [readVariable_contents, readVariable_contents, twin.contents]

/-! Writing twins. -/

theorem writeRegister (r : Register) (v : Value) :
    (s.writeRegister r v).Twin (t.writeRegister r v) :=
  of_fields (congrArg (·.insert r v) twin.registers) twin.cell twin.context twin.function
    twin.mustDefs (congrArg (·.erase r) twin.mustEquals)

theorem addMustDef (r : Register) (node : Nat) : (s.addMustDef r node).Twin (t.addMustDef r node) :=
  of_fields twin.registers twin.cell twin.context twin.function
    (congrArg (·.insert r node) twin.mustDefs) twin.mustEquals

theorem addMustEquals (r : Register) (label : Label) (key : Key) :
    (s.addMustEquals r label key).Twin (t.addMustEquals r label key) :=
  of_fields twin.registers twin.cell twin.context twin.function twin.mustDefs
    (congrArg (·.insert r (label, key)) twin.mustEquals)

omit twin in
/-- The objects that are made ready for a change are twins, whichever way they are copied. -/
theorem ready {c d : Cell} (same : c.object.Twin d.object) (disabled disabled' : Bool) :
    (c.ready disabled).Twin (d.ready disabled') := by
  apply HeapObject.Twin.of_eq
  · rw [shape_ready, shape_ready, same.shape]
  · rw [writable_ready, writable_ready]

/-- A change of an object that twins accept alike is accepted alike in their heaps. -/
theorem modifyObject (label : Label) {f g : HeapObject → Except Error HeapObject}
    (concur : ∀ o p, o.Twin p → Concur HeapObject.Twin (f o) (g p)) :
    Concur Twin (s.modifyObject label f) (t.modifyObject label g) := by
  unfold State.modifyObject
  rcases twin.cell_cases label with ⟨none, none'⟩ | ⟨c, d, found, found', same⟩
  · rw [none, none']
    exact .error _
  · simp only [found, found']
    exact .bind (concur _ _ (ready same _ _)) fun _ _ changed => .ok (twin.insert label changed)

theorem editObject (label : Label) (change : ObjectChange) :
    Concur (fun a b => a.1 = b.1 ∧ a.2.Twin b.2) (s.editObject label change.attempt)
      (t.editObject label change.attempt) := by
  unfold State.editObject
  rcases twin.cell_cases label with ⟨none, none'⟩ | ⟨c, d, found, found', same⟩
  · rw [none, none']
    exact .error _
  · simp only [found, found']
    obtain ⟨answers, changed⟩ :=
      (ready same s.copyOnWriteDisabled t.copyOnWriteDisabled).attempt change
    exact .ok ⟨answers, twin.insert label changed⟩

/-- Twins stay twins when twins are stored in their heaps. -/
theorem newObject (label : Label) {o p : HeapObject} (same : o.Twin p) :
    (s.newObject label o).Twin (t.newObject label p) := by
  apply twin.insert
  unfold object?
  rcases twin.cell_cases label with ⟨none, none'⟩ | ⟨c, d, found, found', old⟩
  · rw [none, none']
    exact same
  · rw [found, found']
    exact HeapObject.Twin.of_eq (congrArg₂ Shape.join old.shape same.shape) rfl

theorem ensureObject (label : Label) : (s.ensureObject label).Twin (t.ensureObject label) := by
  unfold State.ensureObject
  rw [twin.contains]
  split
  · exact twin
  · exact twin.insert label rfl

theorem storeProperty (strong : Bool) (key : Key) (v : Value) (label : Label) :
    Concur Twin (State.storeProperty strong key v s label)
      (State.storeProperty strong key v t label) := by
  apply (twin.ensureObject label).modifyObject label
  intro o p same
  rw [same.shape]
  exact same.changeProperties _

/-- Twins stay twins when a property is written. -/
theorem writeProperty (labels : LabelSet) (key : Key) (v : Value) :
    Concur Twin (s.writeProperty labels key v) (t.writeProperty labels key v) :=
  .foldlM _ (fun label _ _ same => same.storeProperty _ key _ label) twin

theorem weakWriteProperty (labels : LabelSet) (key : Key) (v : Value) :
    Concur Twin (s.weakWriteProperty labels key v) (t.weakWriteProperty labels key v) :=
  .foldlM _ (fun label _ _ same => same.storeProperty _ key _ label) twin

theorem storeAnyProperty (v : Value) (label : Label) :
    Concur Twin (State.storeAnyProperty v s label) (State.storeAnyProperty v t label) := by
  unfold State.storeAnyProperty
  rw [twin.contains]
  split
  · apply twin.modifyObject label
    intro o p same
    rw [same.shape]
    refine .bind (same.setDefault true _) fun o₁ p₁ same₁ => ?_
    rw [same₁.shape]
    refine .bind (same₁.setDefault false _) fun o₂ p₂ same₂ => ?_
    rw [same₂.shape]
    exact same₂.changeProperties _
  · exact .ok twin

theorem writeAnyProperty (labels : LabelSet) (v : Value) :
    Concur Twin (s.writeAnyProperty labels v) (t.writeAnyProperty labels v) :=
  .foldlM _ (fun label _ _ same => same.storeAnyProperty _ label) twin

/-- The labels that were written are equal, and so is the interner. -/
theorem writeVariable (i : Interner) (f : Function) (name : String) (v : Value) :
    (s.writeVariable i f name v).2 = (t.writeVariable i f name v).2 ∧
      Concur (fun a b => a.1 = b.1 ∧ a.2.Twin b.2) (s.writeVariable i f name v).1
        (t.writeVariable i f name v).1 :=
  ⟨rfl, (twin.writeProperty _ _ v).map fun _ _ same => ⟨rfl, same⟩⟩

/-- Twins stay twins when a function is entered, and the interners stay equal. -/
theorem enterFunction (i : Interner) (f : Function) (arguments : List Value) :
    (s.enterFunction i f arguments).2 = (t.enterFunction i f arguments).2 ∧
      (s.enterFunction i f arguments).1.Twin (t.enterFunction i f arguments).1 := by
  unfold State.enterFunction
  split
  · exact ⟨rfl, twin⟩
  · exact ⟨rfl, (twin.newObject _ (.refl _)).newObject _ (.refl _)⟩

theorem freezeHeap : s.freezeHeap.Twin t.freezeHeap := by
  apply twin.withHeap
  intro label
  rw [FinMap.get?_mapValues, FinMap.get?_mapValues]
  rcases twin.cell_cases label with ⟨none, none'⟩ | ⟨c, d, found, found', same⟩
  · rw [none, none']
  · rw [found, found']
    exact congrArg some (view_frozen same)

/-- Joining twins to twins: the flags are equal, and the joins are twins. -/
theorem join {u v : State} (others : u.Twin v) :
    (s.join u).1 = (t.join v).1 ∧ (s.join u).2.Twin (t.join v).2 := by
  constructor
  -- Whether a join changes something is a matter of contents, and twins have equal contents.
  · rw [Bool.eq_iff_iff, ← not_iff_not, Bool.not_eq_true, Bool.not_eq_true,
      join_changes_iff_contents, join_changes_iff_contents, twin.contents, others.contents]
  · rw [join_eq, join_eq]
    refine of_fields ?_ ?_ twin.context twin.function ?_ ?_
    · rw [twin.registers, others.registers]
    · intro label
      simp only [Merge.get?_run]
      rcases others.cell_cases label with ⟨none, none'⟩ | ⟨c, d, found, found', same⟩
      · rw [none, none']
        exact twin.cell label
      · rw [found, found']
        exact view_mergeCell (twin.cell label) same
    · rw [twin.mustDefs, others.mustDefs]
    · rw [twin.mustEquals, others.mustEquals]

/-- The answers of a change are equal, unless it asks for holders, and the changed states are
    twins. -/
theorem change (i : Interner) (change : StateChange) :
    (change.apply i s).2 = (change.apply i t).2 ∧
      Concur (fun a b => (change.asksHolders = false → a.1 = b.1) ∧ a.2.Twin b.2)
        (change.apply i s).1 (change.apply i t).1 := by
  have answered : ∀ {r r' : Except Error State}, Concur Twin r r' →
      Concur (fun a b : Answer × State => (change.asksHolders = false → a.1 = b.1) ∧ a.2.Twin b.2)
        (r.map (Answer.done, ·)) (r'.map (Answer.done, ·)) :=
    fun concur => concur.map fun _ _ same => ⟨fun _ => rfl, same⟩
  cases change with
  | enterFunction f arguments =>
      obtain ⟨interners, entered⟩ := twin.enterFunction i f arguments
      exact ⟨interners, .ok ⟨fun _ => rfl, entered⟩⟩
  | writeRegister r v => exact ⟨rfl, .ok ⟨fun _ => rfl, twin.writeRegister r v⟩⟩
  | addMustDef r node => exact ⟨rfl, .ok ⟨fun _ => rfl, twin.addMustDef r node⟩⟩
  | addMustEquals r label key => exact ⟨rfl, .ok ⟨fun _ => rfl, twin.addMustEquals r label key⟩⟩
  | freezeHeap => exact ⟨rfl, .ok ⟨fun _ => rfl, twin.freezeHeap⟩⟩
  | touch label =>
      have touched := twin.modifyObject label fun o p same => .ok same
      refine ⟨rfl, touched.map fun _ _ same => ⟨?_, same⟩⟩
      intro blind
      cases blind
  | changeObject label change =>
      exact ⟨rfl, (twin.editObject label change).mono fun _ _ same => ⟨fun _ => same.1, same.2⟩⟩
  | writeProperty labels key v => exact ⟨rfl, answered (twin.writeProperty labels key v)⟩
  | weakWriteProperty labels key v => exact ⟨rfl, answered (twin.weakWriteProperty labels key v)⟩
  | writeAnyProperty labels v => exact ⟨rfl, answered (twin.writeAnyProperty labels v)⟩
  | writeVariable f name v =>
      obtain ⟨interners, written⟩ := twin.writeVariable i f name v
      refine ⟨interners, written.map fun _ _ same => ⟨fun _ => ?_, same.2⟩⟩
      rw [same.1]

/-! Reports on twins. -/

theorem titledHeap :
    s.titledHeap.mapValues HeapObject.view = t.titledHeap.mapValues HeapObject.view := by
  have views : ∀ u : State, u.titledHeap.mapValues HeapObject.view =
      .ofList ((u.heap.mapValues Cell.view).toList.map fun entry => (entry.1.text, entry.2)) := by
    intro u
    unfold State.titledHeap
    rw [FinMap.mapValues_ofList]
    simp only [Assoc.mapValues, List.map_map, FinMap.mapValues]
    rfl
  rw [views, views, twin.heap]

/-- What is made of every object of a heap that does not look at its holders. -/
theorem map_titledHeap {α : Type} (f : String → HeapObject → α)
    (blind : ∀ title o p, o.Twin p → f title o = f title p) :
    (s.titledHeap.toList.map fun entry => f entry.1 entry.2) =
      t.titledHeap.toList.map fun entry => f entry.1 entry.2 := by
  apply map_eq_map_of_coarser _ (congrArg FinMap.toList twin.titledHeap)
  rintro ⟨title, o⟩ ⟨title', p⟩ same
  obtain ⟨rfl, views⟩ := Prod.mk.inj same
  exact blind title o p views

/-- Twins are reported alike. -/
theorem report : s.report = t.report := by
  have heaps := twin.map_titledHeap (fun title o => Json.array [.text title, o.report])
    fun title o p same => by rw [same.report]
  unfold State.report defReport equalsReport
  rw [twin.registers, twin.context, twin.function, twin.mustDefs, twin.mustEquals, heaps]

theorem toText : s.toText = t.toText := by
  have heaps := twin.map_titledHeap (fun title o => (title, o.shape.toJson))
    fun title o p same => by rw [same.shape]
  unfold State.toText State.toJson
  rw [twin.registers, twin.context, twin.function, heaps]

end Fields

end Twin

end State

end ScriptHeap
