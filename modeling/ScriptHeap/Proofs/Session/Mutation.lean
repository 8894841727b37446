import ScriptHeap.Session.Command

/-!
# Changes of objects in place

A change of an object is here a program that works on the object step by step: it checks, takes the
property map over, and writes (`Edit.inPlace`). A step that has been made stays made when a later
one fails, so the order of the steps counts. All checks come before the first write: a change in
place ends with the answer and the object of the change that is made at once, and where it fails the
object is as it was (`Edit.run_inPlace`). Localization is the one change that can fail half-way, as
it puts questions to a resolver in between, but it too checks first whether the object may be
changed.

So nothing that is done to a frozen object has an effect, and what fails on any object has none,
unless it is localization (`HeapObject.rejected_unchanged`).
-/

namespace ScriptHeap

/-- A change of an object that asks no resolver. -/
inductive Edit where
  | change (change : ObjectChange) (mutates : change ≠ .freeze)
  | restore (caller : HeapObject) (nodes : FinSet Nat)

/-- A change of an object. -/
inductive Mutation (m : Type → Type) where
  | edit (edit : Edit)
  | localize (resolver : Resolver m) (template : HeapObject) (label : Label)

/-- Make the change at once. -/
def Edit.apply (edit : Edit) (o : HeapObject) : Except Error (Answer × HeapObject) :=
  match edit with
  | .change which _ => which.apply o
  | .restore caller nodes => (o.restore caller nodes).map (.done, ·)

namespace HeapObject

variable {m : Type → Type} [Monad m] {α β : Type}

/-! ### Changes in place -/

/-- Go on only if the object may be changed. -/
def checkWritable : Localizing m Unit := do
  if !(← get).writable then throw (.invariant .frozenObject)

/-- Go on only if the value may stand as a default. -/
def checkDefault (numeric : Bool) (v : Value) : Localizing m Unit := do
  if !legalDefault v then throw (.invariant (.illegalDefault numeric v))

/-- Give the object a property map of its own. -/
def ownProperties : Localizing m Unit :=
  modify fun o => { o with storage := .owned }

/-- Write slots, but not the property map. -/
def writeSlots (f : Shape → Shape) : Localizing m Answer := do
  checkWritable
  reshape f
  return .done

/-- Write the property map, and slots along with it. -/
def writeProperties (f : Shape → Shape) : Localizing m Answer := do
  checkWritable
  ownProperties
  reshape f
  return .done

/-- Write one of the defaults. -/
def writeDefault (numeric : Bool) (v : Value) (f : Shape → Shape) : Localizing m Answer := do
  checkWritable
  checkDefault numeric v
  reshape f
  return .done

/-- Write a slot. -/
def writeSlot (slot : Slot) (v : Value) : Localizing m Answer :=
  match slot with
  | .property key => writeProperties fun s => s.set key v
  | .defaultNumeric => writeDefault true v fun s => { s with defaultNumeric := v }
  | .defaultOther => writeDefault false v fun s => { s with defaultOther := v }
  | .internalValue => writeSlots fun s => { s with internalValue := v }
  | .internalPrototype => writeSlots fun s => { s with internalPrototype := v }

/-- Join a chain into the scope. -/
def joinScope (chain : ScopeChain) : Localizing m Answer := do
  checkWritable
  match (← get).shape.scope with
  | .unknown => throw (.invariant .extendUnknownScope)
  | .known old =>
    reshape fun s => { s with scope := .known (old.join chain) }
    return .truth (old.join chain ≠ old)

end HeapObject

section InPlace

open HeapObject

variable {m : Type → Type} [Monad m]

/-- Make the change step by step. -/
def Edit.inPlace : Edit → Localizing m Answer
  | .change .freeze mutates => absurd rfl mutates
  | .change (.setProperty key v) _ => writeProperties fun s => s.set key v
  | .change (.setProperties properties) _ => writeProperties fun s => { s with properties }
  | .change (.setSlot slot v) _ => writeSlot slot v
  | .change (.setScope scope) _ => writeSlots fun s => { s with scope }
  | .change (.extendScope chain) _ => joinScope chain
  | .change .clearModified _ => writeProperties Shape.clearModified
  | .change (.replaceLabel old new) _ => writeProperties fun s => s.replaceLabel old new
  | .change (.materialize names) _ => writeProperties fun s => s.materialize (names.map .name)
  | .restore caller nodes => writeProperties fun s => s.restore caller.shape nodes

/-- Make a change. -/
def Mutation.run : Mutation m → Localizing m Answer
  | .edit which => which.inPlace
  | .localize resolver template label => do
    HeapObject.localize resolver template label
    return .done

/-- Make changes one after the other, whether they fail or not. -/
def Mutation.runAll (calls : List (Mutation m)) :
    StateT HeapObject m (List (Except Error Answer)) :=
  calls.mapM fun call => call.run.run

end InPlace

/-! ### Steps -/

namespace HeapObject

variable {m : Type → Type} [Monad m] {α β : Type} {o o' : HeapObject}

/-- How a change in place ends that is made as a whole or not at all. -/
def settle (o : HeapObject) : Except Error (Answer × HeapObject) → Except Error Answer × HeapObject
  | .ok (answer, changed) => (.ok answer, changed)
  | .error e => (.error e, o)

variable [LawfulMonad m]

theorem bind_of_ok {x : Localizing m α} {f : α → Localizing m β} {a : α}
    (ran : x.run.run o = pure (.ok a, o')) : (x >>= f).run.run o = (f a).run.run o' := by
  rw [ExceptT.run_bind, StateT.run_bind, ran, pure_bind]

theorem bind_of_error {x : Localizing m α} {f : α → Localizing m β} {e : Error}
    (ran : x.run.run o = pure (.error e, o')) : (x >>= f).run.run o = pure (.error e, o') := by
  rw [ExceptT.run_bind, StateT.run_bind, ran, pure_bind]
  rfl

theorem run_lift {x : StateT HeapObject m α} {a : α} (ran : x.run o = pure (a, o')) :
    (ExceptT.lift x : Localizing m α).run.run o = pure (.ok a, o') := by
  simp [ran]

theorem run_get (o : HeapObject) :
    (get : Localizing m HeapObject).run.run o = pure (.ok o, o) :=
  run_lift (x := get) (StateT.run_get o)

theorem run_modify (f : HeapObject → HeapObject) (o : HeapObject) :
    (modify f : Localizing m Unit).run.run o = pure (.ok (), f o) :=
  run_lift (x := modify f) (StateT.run_modify ..)

/-- Without permission nothing else of the program is run. -/
theorem run_checked (x : Localizing m α) (o : HeapObject) :
    (do checkWritable; x : Localizing m α).run.run o =
      if o.writable then x.run.run o else pure (.error (.invariant .frozenObject), o) := by
  have read := run_get (m := m) o
  cases writable : o.writable with
  | true =>
      have passed : (checkWritable : Localizing m Unit).run.run o = pure (.ok (), o) := by
        refine (bind_of_ok read).trans ?_
        rw [writable]
        rfl
      exact bind_of_ok passed
  | false =>
      have stopped : (checkWritable : Localizing m Unit).run.run o =
          pure (.error (.invariant .frozenObject), o) := by
        refine (bind_of_ok read).trans ?_
        rw [writable]
        rfl
      exact bind_of_error stopped

theorem run_reshaped (f : Shape → Shape) (answer : Answer) (o : HeapObject) :
    (do reshape f; return answer : Localizing m Answer).run.run o =
      pure (.ok answer, { o with shape := f o.shape }) :=
  bind_of_ok (run_modify ..)

theorem run_writeSlots (f : Shape → Shape) (o : HeapObject) :
    (writeSlots f : Localizing m Answer).run.run o =
      pure (settle o ((o.changeSlots f).map (.done, ·))) := by
  unfold writeSlots changeSlots
  rw [run_checked]
  split
  · exact run_reshaped f .done o
  · rfl

theorem run_writeProperties (f : Shape → Shape) (o : HeapObject) :
    (writeProperties f : Localizing m Answer).run.run o =
      pure (settle o ((o.changeProperties f).map (.done, ·))) := by
  unfold writeProperties changeProperties
  rw [run_checked]
  split
  · exact (bind_of_ok (run_modify ..)).trans (run_reshaped f .done _)
  · rfl

theorem run_writeDefault (numeric : Bool) (v : Value) (f : Shape → Shape) (o : HeapObject) :
    (writeDefault numeric v f : Localizing m Answer).run.run o =
      pure (settle o
        (if !o.writable then .error (.invariant .frozenObject)
        else if !legalDefault v then .error (.invariant (.illegalDefault numeric v))
        else (o.changeSlots f).map (.done, ·))) := by
  unfold writeDefault
  rw [run_checked]
  by_cases writable : o.writable = true
  · rw [if_pos writable, if_neg (by simp [writable])]
    cases legal : legalDefault v with
    | false =>
        apply bind_of_error
        rw [checkDefault, legal]
        rfl
    | true =>
        have passed : (checkDefault numeric v : Localizing m Unit).run.run o = pure (.ok (), o) := by
          rw [checkDefault, legal]
          rfl
        rw [if_neg (by simp), changeSlots, if_pos writable]
        exact (bind_of_ok passed).trans (run_reshaped f .done o)
  · simp [writable, settle]

theorem run_writeSlot (slot : Slot) (v : Value) (o : HeapObject) :
    (writeSlot slot v : Localizing m Answer).run.run o =
      pure (settle o ((o.setSlot slot v).map (.done, ·))) := by
  cases slot with
  | property key => exact run_writeProperties _ o
  | internalValue | internalPrototype => exact run_writeSlots _ o
  | defaultNumeric | defaultOther =>
      refine (run_writeDefault ..).trans ?_
      simp only [setSlot, setDefaultNumeric, setDefaultOther, setDefault]
      split
      · rfl
      · split <;> rfl

theorem run_joinScope (chain : ScopeChain) (o : HeapObject) :
    (joinScope chain : Localizing m Answer).run.run o =
      pure (settle o ((o.extendScope chain).map fun r => (.truth r.1, r.2))) := by
  unfold joinScope extendScope
  rw [run_checked]
  by_cases writable : o.writable = true
  · rw [if_pos writable, if_neg (by simp [writable])]
    refine (bind_of_ok (run_get (m := m) o)).trans ?_
    cases o.shape.scope with
    | unknown => rfl
    | known old => exact run_reshaped (m := m) _ _ o
  · simp [writable, settle, Except.map]

end HeapObject

section InPlace

open HeapObject

variable {m : Type → Type} [Monad m] [LawfulMonad m]

/-- A change in place does what the change does that is made at once, or nothing. -/
theorem Edit.run_inPlace (edit : Edit) (o : HeapObject) :
    (edit.inPlace : Localizing m Answer).run.run o = pure (settle o (edit.apply o)) := by
  rcases edit with ⟨change, mutates⟩ | ⟨caller, nodes⟩
  · cases change with
    | freeze => exact absurd rfl mutates
    | setProperty | setProperties | clearModified | replaceLabel | materialize =>
        exact run_writeProperties _ o
    | setSlot slot v => exact run_writeSlot slot v o
    | setScope => exact run_writeSlots _ o
    | extendScope chain => exact run_joinScope chain o
  · exact run_writeProperties _ o

end InPlace

namespace HeapObject

variable {m : Type → Type} [Monad m] {o : HeapObject}

/-! ### Frozen objects -/

theorem setSlot_of_frozen (frozen : o.writable = false) (slot : Slot) (v : Value) :
    o.setSlot slot v = .error (.invariant .frozenObject) := by
  cases slot <;> simp [setSlot, setProperty, setDefaultNumeric, setDefaultOther, setDefault,
    setInternalValue, setInternalPrototype, changeProperties, changeSlots, frozen]

/-- Every change asks first whether the object may be changed. -/
theorem apply_of_frozen (frozen : o.writable = false) (edit : Edit) :
    edit.apply o = .error (.invariant .frozenObject) := by
  have properties : ∀ f, o.changeProperties f = .error (.invariant .frozenObject) :=
    fun f => if_neg (by simp [frozen])
  have slots : ∀ f, o.changeSlots f = .error (.invariant .frozenObject) :=
    fun f => if_neg (by simp [frozen])
  rcases edit with ⟨change, mutates⟩ | ⟨caller, nodes⟩
  · cases change with
    | freeze => exact absurd rfl mutates
    | setProperty | setProperties | clearModified | replaceLabel | materialize =>
        exact congrArg (Except.map _) (properties _)
    | setSlot slot v => exact congrArg (Except.map _) (setSlot_of_frozen frozen slot v)
    | setScope => exact congrArg (Except.map _) (slots _)
    | extendScope => simp [Edit.apply, ObjectChange.apply, extendScope, frozen, Except.map]
  · exact congrArg (Except.map _) (properties _)

variable [LawfulMonad m]

theorem localize_of_frozen (frozen : o.writable = false) (resolver : Resolver m)
    (template : HeapObject) (label : Label) :
    (localize resolver template label).run.run o =
      pure (.error (.invariant .frozenObject), o) := by
  have stopped : o.changeProperties (·.materialize template.shape.properties.keys) =
      .error (.invariant .frozenObject) := if_neg (by simp [frozen])
  refine (bind_of_ok (run_get (m := m) o)).trans (bind_of_error ?_)
  rw [stopped]
  rfl

theorem run_of_frozen (frozen : o.writable = false) (call : Mutation m) :
    call.run.run.run o = pure (.error (.invariant .frozenObject), o) := by
  cases call with
  | edit edit =>
      refine (edit.run_inPlace o).trans ?_
      rw [apply_of_frozen frozen]
      rfl
  | localize resolver template label =>
      exact bind_of_error (localize_of_frozen frozen resolver template label)

theorem runAll_of_frozen (frozen : o.writable = false) (calls : List (Mutation m)) :
    (Mutation.runAll calls).run o =
      pure (calls.map fun _ => .error (.invariant .frozenObject), o) := by
  induction calls with
  | nil => rfl
  | cons call rest ih =>
      unfold Mutation.runAll at ih ⊢
      simp [run_of_frozen frozen call, ih]

/-- Whatever is called on a frozen object fails and leaves it as it was. On any object a call that
    asks no resolver gives the answer and the object of the change that is made at once, and leaves
    the object as it was where that fails. -/
theorem rejected_unchanged (o : HeapObject) :
    (∀ calls : List (Mutation m), (Mutation.runAll calls).run o.freeze =
      pure (calls.map fun _ => .error (.invariant .frozenObject), o.freeze)) ∧
    ∀ edit : Edit,
      (∀ e, edit.apply o = .error e →
        (Mutation.edit edit : Mutation m).run.run.run o = pure (.error e, o)) ∧
      ∀ answer changed, edit.apply o = .ok (answer, changed) →
        (Mutation.edit edit : Mutation m).run.run.run o = pure (.ok answer, changed) := by
  refine ⟨runAll_of_frozen rfl, fun edit => ?_⟩
  have ran : (Mutation.edit edit : Mutation m).run.run.run o = _ := edit.run_inPlace o
  refine ⟨fun e failed => ?_, fun answer changed done => ?_⟩
  · rw [ran, failed]
    rfl
  · rw [ran, done]
    rfl

/-- A resolver that counts how often it is asked, and refuses. -/
def refusing : Resolver (StateM Nat) where
  value _ _ _ := do
    modify (· + 1)
    return .error (.invariant .readUnknownScope)
  scope _ _ := do
    modify (· + 1)
    return .error (.invariant .readUnknownScope)

/-- Neither a write, nor a default that is not legal, nor a resolver changes a frozen object, and a
    scope that is unknown is not extended although the object may be changed. -/
theorem unknownObject_unchanged :
    (Mutation.runAll [.edit (.change (.setProperty (.name "p") .null) nofun),
        .edit (.change (.setSlot .defaultNumeric .null) nofun), .edit (.restore default ∅),
        .localize refusing (.ofShape .absentModified) .global]).run
        (ofShape .unknown).freeze =
      pure (List.replicate 4 (.error (.invariant .frozenObject)), (ofShape .unknown).freeze) ∧
    (Mutation.edit (.change (.extendScope .empty) nofun) : Mutation (StateM Nat)).run.run.run
        (ofShape .unknown) =
      pure (.error (.invariant .extendUnknownScope), ofShape .unknown) :=
  ⟨(rejected_unchanged (ofShape .unknown)).1 _,
    ((rejected_unchanged (ofShape .unknown)).2 (.change (.extendScope .empty) nofun)).1 _ rfl⟩

end HeapObject

end ScriptHeap
