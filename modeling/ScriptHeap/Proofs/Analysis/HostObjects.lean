import ScriptHeap.Proofs.Analysis.EntryValues
import ScriptHeap.Proofs.Analysis.HostMemory
import ScriptHeap.Proofs.Analysis.Occurrence
import ScriptHeap.Proofs.Transfer.HostShapes

/-!
# The host's objects in a run

In every state of a run with the rules for host values, no heap object stands for an instance of a
host class, and the object of a class has nothing in it (`State.LeavesToHost`): what these objects
hold is the host's business. A class gets its object from the call that names it, and no write
changes it, so the property persists.
-/

namespace ScriptHeap

/-! ### Heaps without host data -/

/-- The heap has no instance of a host class, and a class has an object with nothing in it. -/
structure State.LeavesToHost (s : State) : Prop where
  instances : ∀ label, label.kind = .foreignObject → s.object? label = none
  classes : ∀ label o, label.kind = .foreignType → s.object? label = some o →
    o.shape = .absentModified

namespace Contents

variable {c d : Contents}

/-- Of the host labels only those of classes have a shape, and it is empty. -/
def OnlyClasses (hosted : Lookup Label Shape) : Prop :=
  ∀ label shape, hosted label = some shape → label.kind = .foreignType ∧ shape = .absentModified

theorem hosted_eq_some {label : Label} {shape : Shape} :
    c.hosted label = some shape ↔ label.IsHosted ∧ c.shapes label = some shape := by
  unfold hosted
  split <;> simp [*]

/-- Naming a class twice joins an empty object to an empty object. -/
theorem onlyClasses_allocate (only : OnlyClasses c.hosted) (index : Nat) (name : Option String) :
    OnlyClasses (c.allocate ⟨index, .foreignType, name⟩).hosted := by
  intro label shape found
  obtain ⟨hosted, found⟩ := hosted_eq_some.mp found
  by_cases same : label = ⟨index, .foreignType, name⟩
  · subst same
    have joined : Shape.absentModified.join .absentModified = .absentModified := by decide +kernel
    refine ⟨rfl, ?_⟩
    cases old : c.shapes ⟨index, .foreignType, name⟩ with
    | none => simpa [allocate, change, old, eq_comm] using found
    | some existing =>
        obtain rfl := (only _ existing (hosted_eq_some.mpr ⟨hosted, old⟩)).2
        simpa [allocate, change, old, joined, eq_comm] using found
  · have kept : c.shapes label = some shape := by simpa [allocate, change, same] using found
    exact only label shape (hosted_eq_some.mpr ⟨hosted, kept⟩)

theorem onlyClasses_join (left : OnlyClasses c.hosted) (right : OnlyClasses d.hosted) :
    OnlyClasses (c.join d).hosted := by
  intro label shape found
  obtain ⟨hosted, found⟩ := hosted_eq_some.mp found
  have first : ∀ own, c.shapes label = some own → label.kind = .foreignType ∧ own = _ :=
    fun own held => left label own (hosted_eq_some.mpr ⟨hosted, held⟩)
  have second : ∀ own, d.shapes label = some own → label.kind = .foreignType ∧ own = _ :=
    fun own held => right label own (hosted_eq_some.mpr ⟨hosted, held⟩)
  simp only [join, Lookup.join] at found
  cases own : c.shapes label with
  | none =>
      rw [own] at found
      exact second shape found
  | some a =>
      cases other : d.shapes label with
      | none =>
          simp only [own, other, Option.some.injEq] at found
          exact found ▸ first a own
      | some b =>
          have same : a = b := (first a own).2.trans (second b other).2.symm
          simp only [own, other, same, if_true, Option.some.injEq] at found
          exact found ▸ second b other

end Contents

namespace State

open Contents

variable {s : State}

theorem leavesToHost (only : OnlyClasses s.contents.hosted) : s.LeavesToHost := by
  have held : ∀ {label : Label} {o : HeapObject}, label.IsHosted → s.object? label = some o →
      label.kind = .foreignType ∧ o.shape = .absentModified := by
    intro label o hosted found
    exact only label o.shape (hosted_eq_some.mpr ⟨hosted, shapes_of_object found⟩)
  refine ⟨?_, fun label o kind found => (held (.inl kind) found).2⟩
  intro label kind
  cases found : s.object? label with
  | none => rfl
  | some o =>
      have type := (held (.inr kind) found).1
      rw [kind] at type
      cases type

theorem onlyClasses_newObject (only : OnlyClasses s.contents.hosted) {label : Label}
    (apart : ¬ label.IsHosted) (o : HeapObject) :
    OnlyClasses (s.newObject label o).contents.hosted := by
  intro other shape found
  obtain ⟨hosted, found⟩ := hosted_eq_some.mp found
  have shapes : (s.newObject label o).shapes other = some shape := found
  rw [shapes_newObject] at shapes
  dsimp only at shapes
  have different : other ≠ label := by
    rintro rfl
    exact apart hosted
  rw [if_neg different] at shapes
  exact only other shape (hosted_eq_some.mpr ⟨hosted, shapes⟩)

theorem onlyClasses_initial (t : Interner) (function : Nat) (context : CallString)
    (copyOnWriteDisabled : Bool) :
    OnlyClasses (initial t function context copyOnWriteDisabled).1.contents.hosted := by
  rw [contents_initial]
  intro label shape found
  obtain ⟨hosted, found⟩ := hosted_eq_some.mp found
  by_cases same : label = .global
  · subst same
    exact absurd hosted (by decide)
  · simp [Contents.initial, same] at found

theorem onlyClasses_entered (t : Interner) (f : Function) (copyOnWriteDisabled : Bool) :
    OnlyClasses (entered t f copyOnWriteDisabled).contents.hosted := by
  have start := onlyClasses_initial t f.index .main copyOnWriteDisabled
  unfold entered enterFunction
  split
  · exact start
  · apply onlyClasses_newObject
    · apply onlyClasses_newObject start
      simp [Label.IsHosted, Label.activation]
    · simp [Label.IsHosted, Label.arguments]

end State

/-! ### Runs -/

namespace Analysis

open Contents

variable {σ : Type} {a : Analysis σ}

theorem persistent_onlyClasses (layered : a.dispatcher = Dispatcher.base.withLayer Foreign.layer) :
    a.Persistent fun s => OnlyClasses s.contents.hosted where
  start := by
    intro main t push member
    rcases List.mem_cons.mp member with rfl | member
    · exact State.onlyClasses_initial _ _ _ _
    · obtain ⟨f, _, rfl⟩ := List.mem_map.mp member
      exact State.onlyClasses_entered t f _
  freeze := by
    intro s only
    rw [State.contents_freezeHeap]
    exact only
  join := by
    intro s t left right
    rw [State.contents_join]
    exact onlyClasses_join left right
  dispatch := by
    rw [layered]
    exact Foreign.spares_dispatch (fun _ only => only)
      fun _ index name only => onlyClasses_allocate only index name

/-- With the rules for host values every state that occurs in a run leaves the host's objects to the
    host, and a write changes no heap object of a class or an instance, in whatever state it is
    made. -/
theorem leavesToHost_of_occurs
    (layered : a.dispatcher = Dispatcher.base.withLayer Foreign.layer) :
    (∀ w s, a.Occurs w s → s.LeavesToHost) ∧
      ∀ (node : Node) (m : Machine σ), node.kind = .writeProperty ∨ node.kind = .writeVariable →
        ∀ label, label.kind = .foreignType ∨ label.kind = .foreignObject →
          ((a.dispatcher.dispatch a.setting node).run.run m).2.state.shapes label =
            m.state.shapes label := by
  refine ⟨fun w s occurs => State.leavesToHost ((persistent_onlyClasses layered).of_occurs occurs),
    ?_⟩
  intro node m kind label hosted
  rw [layered]
  exact Foreign.shapes_of_write kind m hosted

/-- A variable holds an instance of a host class or an ordinary object, and a property of it is
    written. -/
def mixedWrite : Analysis ClassTable where
  setting := {
    host := ClassTable.host
    program := .sketch [] 5
      [(0, .readVariable 0 "Java"), (0, .constant 1 (.string "C")),
        (0, .methodCall (some 2) 0 "type" [1]), (1, .construct 3 2 []), (2, .writeVariable "x" 3),
        (3, .newObject 4), (3, .writeVariable "x" 4), (4, .readVariable 5 "x"),
        (4, .constant 6 .null), (4, .writeProperty 5 (.fixed "f") 6)]
      [(0, 1), (1, 2), (2, 3), (2, 4), (3, 4), (4, 5)]
    options := {} }
  dispatcher := Dispatcher.base.withLayer Foreign.layer

/-- After the write the base still has both labels, the class has an empty object and the instance
    none. -/
theorem mixedWrite_leavesToHost :
    ∃ s, mixedWrite.Stores numberWorld s ∧
      s.registers.get? 5 = some
        ⟨{}, none, .ofList [⟨3, .foreignObject, some "C"⟩, ⟨5, .object, none⟩], []⟩ ∧
      (s.shapes ⟨2, .foreignType, some "C"⟩).isSome = true ∧ s.LeavesToHost ∧
      ((mixedWrite.dispatcher.dispatch mixedWrite.setting
        ⟨9, 4, .writeProperty 5 (.fixed "f") 6⟩).run.run ⟨numberWorld, s, []⟩).2.state.shapes
          ⟨2, .foreignType, some "C"⟩ = s.shapes ⟨2, .foreignType, some "C"⟩ := by
  have shown : mixedWrite.settled? numberWorld ⟨5, .main⟩
      (fun s => (s.registers.get? 5).bind fun v =>
        (s.shapes ⟨2, .foreignType, some "C"⟩).map fun _ => v) = some
      ⟨{}, none, .ofList [⟨3, .foreignObject, some "C"⟩, ⟨5, .object, none⟩], []⟩ := by
    decide +kernel
  obtain ⟨s, stores, seen⟩ := stores_of_settled? shown
  obtain ⟨v, held, named⟩ := Option.bind_eq_some_iff.mp seen
  obtain ⟨shape, found, rfl⟩ := Option.map_eq_some_iff.mp named
  obtain ⟨leaves, writes⟩ := leavesToHost_of_occurs (a := mixedWrite) rfl
  exact ⟨s, stores, held, by simp [found], leaves _ s (.stored stores),
    writes _ _ (.inl rfl) _ (.inl rfl)⟩

end Analysis

end ScriptHeap
