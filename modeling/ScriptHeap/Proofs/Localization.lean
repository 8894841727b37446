import ScriptHeap.Proofs.Session.Mutation
import ScriptHeap.Proofs.State.Agreement
import ScriptHeap.Proofs.Transfer.Logic

/-!
# What localization resolves

Localization changes an object slot by slot and asks a resolver in between, so what it asks could
depend on what it has put in place before. It does not: once the template's keys are listed, it
comes to the same as asking about all slots as they were and putting the answers in place at the end
(`HeapObject.localize_mirrors`), in whatever monad the resolver answers. The proof follows the text
of both (`HeapObject.Mirrors`). A refusal may come when defaults have been replaced already, but the
listed keys then read as before.

For the resolver inside one function the answers are known (`Shape.completed`), and to ask once more
gives the same.
-/

namespace ScriptHeap

namespace Shape

/-! ### Listing the template's keys -/

theorem materialize_eq (s : Shape) (keys : List Key) :
    s.materialize keys =
      { s with properties := s.properties.insertAll (keys.map fun key => (key, s.get key)) } := by
  have folded : ∀ (keys : List Key) (acc : Shape),
      keys.foldl (fun acc key => acc.set key (s.get key)) acc =
        { acc with
          properties := acc.properties.insertAll (keys.map fun key => (key, s.get key)) } := by
    intro keys
    induction keys with
    | nil => exact fun _ => rfl
    | cons key rest ih => exact fun acc => ih (acc.set key (s.get key))
  exact folded keys s

/-- The keys of both shapes, with what they read as in the first. -/
def listing (s template : Shape) : FinMap Key Value :=
  .ofList ((commonKeys s template).map fun key => (key, s.get key))

theorem toList_listing (s template : Shape) :
    (s.listing template).toList = (commonKeys s template).map fun key => (key, s.get key) :=
  FinMap.toList_ofList (List.pairwise_map.mpr (FinSet.pairwise_toList _))

/-- Once the template's keys are listed too, the keys of both are. -/
theorem materialize_listing (s template : Shape) :
    s.materialize template.properties.keys = { s with properties := s.listing template } := by
  rw [materialize_eq]
  congr 1
  apply FinMap.ext
  intro key
  rw [listing, FinMap.get?_insertAll_map, FinMap.get?_ofList_map]
  simp only [mem_commonKeys, FinMap.mem_keys_iff, ← FinMap.contains_eq_true_iff]
  cases found : s.properties.get? key with
  | none =>
      have unlisted : s.properties.contains key = false := by simp [FinMap.contains, found]
      simp only [unlisted, Bool.false_eq_true, false_or]
  | some v => simp [FinMap.contains, found, get_of_listed found]

/-- With these properties, every key of both reads as it did, whatever the defaults are. -/
theorem get_of_listing {s template s' : Shape} (listed : s'.properties = s.listing template)
    (key : Key) (member : key ∈ commonKeys s template) : s'.get key = s.get key := by
  apply get_of_listed
  rw [listed, listing, FinMap.get?_ofList_map, if_pos member]

/-! ### Completing a shape -/

/-- What is unknown in a shape, taken from the template. -/
def completed (current template : Shape) : Shape :=
  { properties := .ofList ((current.commonKeys template).map fun key =>
      (key, Resolver.localValue (current.get key) (template.get key)))
    defaultNumeric := Resolver.localValue current.defaultNumeric template.defaultNumeric
    defaultOther := Resolver.localValue current.defaultOther template.defaultOther
    internalPrototype := Resolver.localValue current.internalPrototype template.internalPrototype
    internalValue := Resolver.localValue current.internalValue template.internalValue
    scope := if current.scope = .unknown ∧ template.scope ≠ .unknown then template.scope
      else current.scope }

theorem get?_completed (current template : Shape) (key : Key) :
    (completed current template).properties.get? key =
      if key ∈ current.commonKeys template then
        some (Resolver.localValue (current.get key) (template.get key)) else Option.none :=
  FinMap.get?_ofList_map ..

/-- A key that neither shape lists is completed along with its default. -/
theorem default_completed (current template : Shape) (key : Key) :
    (completed current template).default key =
      Resolver.localValue (current.default key) (template.default key) := by
  unfold default
  split <;> rfl

theorem getSlot_completed (current template : Shape) (slot : Slot) :
    (completed current template).getSlot slot =
      Resolver.localValue (current.getSlot slot) (template.getSlot slot) := by
  cases slot with
  | property key =>
    exact get_of_commonKeys (get?_completed current template key)
      (default_completed current template key)
  | defaultNumeric | defaultOther | internalValue | internalPrototype => rfl

theorem contains_completed (current template : Shape) (key : Key) :
    (completed current template).properties.contains key = true ↔
      current.properties.contains key = true ∨ template.properties.contains key = true := by
  rw [← mem_commonKeys, FinMap.contains, get?_completed]
  split <;> simp_all

/-- A shape that has been completed stays as it is. -/
theorem completed_completed (current template : Shape) :
    completed (completed current template) template = completed current template := by
  apply ext_slots
  · intro key
    simp only [contains_completed, or_assoc, or_self]
  · intro slot
    simp only [getSlot_completed, Resolver.localValue]
    split <;> simp_all
  · simp only [completed]
    split <;> simp_all

end Shape

/-! ### Asking at once -/

namespace Resolver

variable {m : Type → Type} [Monad m]

/-- Ask for a slot, given what it holds in a shape and in the template. -/
def ask (resolver : Resolver m) (current template : Shape) (label : Label) (slot : Slot) :
    ExceptT Error m Value :=
  ExceptT.mk (resolver.value (current.getSlot slot) (template.getSlot slot) ⟨label, slot⟩)

/-- Ask for the scope, unless it is unknown on both sides. -/
def askScope (resolver : Resolver m) (current template : Shape) : ExceptT Error m Scope :=
  if current.scope.isUnknown && template.scope.isUnknown then pure .unknown
  else .known <$> ExceptT.mk (resolver.scope current.scope template.scope.chain)

/-- The shape of all answers, when each question is about the slot as it was: the fixed slots, the
    scope, and every key that is listed in the shape or in the template. -/
def answers (resolver : Resolver m) (current template : Shape) (label : Label) :
    ExceptT Error m Shape := do
  let defaultNumeric ← resolver.ask current template label .defaultNumeric
  let defaultOther ← resolver.ask current template label .defaultOther
  let internalValue ← resolver.ask current template label .internalValue
  let internalPrototype ← resolver.ask current template label .internalPrototype
  let scope ← resolver.askScope current template
  let properties ← (current.commonKeys template).mapM fun key => do
    return (key, ← resolver.ask current template label (.property key))
  return { properties := .ofList properties, defaultNumeric, defaultOther, internalPrototype,
           internalValue, scope }

end Resolver

namespace HeapObject

/-! ### Localization on its way -/

variable {m : Type → Type} [Monad m] [LawfulMonad m] {α β : Type}

/-- What is known of a localization when it has ended: the object, or after a refusal what the
    object reads under some keys. -/
def seen (keys : List Key) :
    Except Error Unit × HeapObject → Except (Error × List Value) HeapObject
  | (.ok _, o) => .ok o
  | (.error e, o) => .error (e, keys.map o.shape.get)

/-- The same of an object that takes all answers over at once, or none. -/
def takeOver (t : HeapObject) (keys : List Key) :
    Except Error Shape → Except (Error × List Value) HeapObject
  | .ok shape => .ok { t with shape, storage := .owned }
  | .error e => .error (e, keys.map t.shape.get)

variable (t template : HeapObject)

/-- A localization that is on its way comes to what asking at once comes to. -/
def Mirrors (x : Localizing m Unit) (o : HeapObject) (y : ExceptT Error m Shape) : Prop :=
  seen (t.shape.commonKeys template.shape) <$> x.run.run o =
    takeOver t (t.shape.commonKeys template.shape) <$> y.run

variable {t template} {o : HeapObject} {y : ExceptT Error m Shape}

theorem run_request_bind (answer : m (Except Error α)) (f : α → Localizing m β) (o : HeapObject) :
    (request answer >>= f).run.run o = answer >>= fun r => (ExceptT.bindCont f r).run o := by
  show (StateT.lift answer >>= ExceptT.bindCont f).run o = _
  rw [StateT.run_bind, StateT.run_lift, bind_assoc]
  simp only [pure_bind]

namespace Mirrors

/-- Both sides put the same question. A refusal finds the listed keys as they were. -/
theorem request {answer : m (Except Error α)} {f : α → Localizing m Unit}
    {g : α → ExceptT Error m Shape}
    (listed : o.shape.properties = t.shape.listing template.shape)
    (later : ∀ a, Mirrors t template (f a) o (g a)) :
    Mirrors t template (HeapObject.request answer >>= f) o (ExceptT.mk answer >>= g) := by
  unfold Mirrors at later ⊢
  have asked : (ExceptT.mk answer >>= g).run = answer >>= ExceptT.bindCont g := rfl
  rw [run_request_bind, asked, map_bind, map_bind]
  congr 1
  funext r
  cases r with
  | ok a => exact later a
  | error e =>
      have failed : (ExceptT.bindCont f (.error e)).run o = pure (.error e, o) := rfl
      have refused : ExceptT.bindCont g (.error e) = pure (.error e) := rfl
      rw [failed, refused, map_pure, map_pure]
      simp only [seen, takeOver, List.map_congr_left (Shape.get_of_listing listed)]

/-- A step that puts no question. -/
theorem step {x : Localizing m α} {a : α} {o' : HeapObject} {f : α → Localizing m Unit}
    (ran : x.run.run o = pure (.ok a, o')) (later : Mirrors t template (f a) o' y) :
    Mirrors t template (x >>= f) o y := by
  unfold Mirrors
  rw [bind_of_ok ran]
  exact later

variable {resolver : Resolver m} {label : Label}

/-- A fixed slot that still holds what it held. -/
theorem slot {slot : Slot} {f : Unit → Localizing m Unit} {g : Value → ExceptT Error m Shape}
    (listed : o.shape.properties = t.shape.listing template.shape)
    (held : o.shape.getSlot slot = t.shape.getSlot slot)
    (later : ∀ v, Mirrors t template (f ()) { o with shape := o.shape.setSlot slot v } (g v)) :
    Mirrors t template (localizeSlot resolver template.shape label slot >>= f) o
      (resolver.ask t.shape template.shape label slot >>= g) := by
  unfold localizeSlot Resolver.ask
  rw [bind_assoc]
  refine step (run_get o) ?_
  rw [held, bind_assoc]
  exact request listed fun v => step (run_modify ..) (later v)

theorem scope {f : Unit → Localizing m Unit} {g : Scope → ExceptT Error m Shape}
    (listed : o.shape.properties = t.shape.listing template.shape)
    (held : o.shape.scope = t.shape.scope)
    (later : ∀ scope,
      Mirrors t template (f ()) { o with shape := { o.shape with scope } } (g scope)) :
    Mirrors t template (localizeScope resolver template.shape >>= f) o
      (resolver.askScope t.shape template.shape >>= g) := by
  unfold localizeScope Resolver.askScope
  rw [bind_assoc]
  refine step (run_get o) ?_
  rw [held]
  by_cases bothUnknown : (t.shape.scope.isUnknown && template.shape.scope.isUnknown) = true
  · -- Nothing is asked, and the scope stays unknown.
    have unknown : t.shape.scope = .unknown := by
      revert bothUnknown
      cases t.shape.scope <;> simp [Scope.isUnknown]
    have same := later .unknown
    rw [← unknown, ← held] at same
    rw [if_neg (by simp [bothUnknown]), if_pos bothUnknown, pure_bind, pure_bind, ← unknown, ← held]
    exact same
  · rw [if_pos (by simp [bothUnknown]), if_neg bothUnknown, bind_assoc, map_eq_pure_bind,
      bind_assoc]
    refine request listed fun chain => ?_
    rw [pure_bind]
    exact step (run_modify ..) (later (.known chain))

/-- Some of the listed properties. -/
theorem entries {keys : List Key} {f : List (Key × Value) → Localizing m Unit}
    {g : List (Key × Value) → ExceptT Error m Shape}
    (listed : o.shape.properties = t.shape.listing template.shape)
    (later : ∀ resolved, Mirrors t template (f resolved) o (g resolved)) :
    Mirrors t template
      ((keys.map fun key => (key, t.shape.get key)).mapM (fun entry => do
        let v ← HeapObject.request
          (resolver.value entry.2 (template.shape.get entry.1) ⟨label, .property entry.1⟩)
        return (entry.1, v)) >>= f) o
      ((keys.mapM fun key => do
        return (key, ← resolver.ask t.shape template.shape label (.property key))) >>= g) := by
  induction keys generalizing f g with
  | nil =>
    simp only [List.map_nil, List.mapM_nil, pure_bind]
    exact later []
  | cons key rest ih =>
    simp only [List.map_cons, List.mapM_cons, bind_assoc, pure_bind] at ih ⊢
    refine request listed fun v => ?_
    exact ih fun resolved => later ((key, v) :: resolved)

theorem properties {g : List (Key × Value) → ExceptT Error m Shape}
    (listed : o.shape.properties = t.shape.listing template.shape)
    (later : ∀ resolved, Mirrors t template
      (reshape fun s => { s with properties := .ofList resolved }) o (g resolved)) :
    Mirrors t template (localizeProperties resolver template.shape label) o
      (((t.shape.commonKeys template.shape).mapM fun key => do
        return (key, ← resolver.ask t.shape template.shape label (.property key))) >>= g) := by
  refine step (run_get o) ?_
  rw [listed, Shape.toList_listing]
  exact entries listed later

/-- The last step puts all answers in place. -/
theorem done {x : Localizing m Unit} {shape : Shape}
    (ran : x.run.run o = pure (.ok (), { t with shape, storage := .owned })) :
    Mirrors t template x o (pure shape) := by
  unfold Mirrors
  rw [ran, ExceptT.run_pure, map_pure, map_pure]
  rfl

end Mirrors

/-- Localization is asking at once: no question is about what an earlier answer has put in place. -/
theorem localize_mirrors (writable : t.writable = true) (resolver : Resolver m)
    (template : HeapObject) (label : Label) :
    Mirrors t template (localize resolver template label) t
      (resolver.answers t.shape template.shape label) := by
  have ready : t.changeProperties (·.materialize template.shape.properties.keys) =
      .ok { t with
        shape := { t.shape with properties := t.shape.listing template.shape }
        storage := .owned } := by
    rw [changeProperties, if_pos writable, Shape.materialize_listing]
  refine Mirrors.step (run_get t) ?_
  rw [ready]
  refine Mirrors.step rfl (.step (run_modify ..) ?_)
  refine .slot rfl rfl fun defaultNumeric => .slot rfl rfl fun defaultOther =>
    .slot rfl rfl fun internalValue => .slot rfl rfl fun internalPrototype =>
    .scope rfl rfl fun scope => .properties rfl fun resolved => .done ?_
  exact run_modify ..

end HeapObject

/-! ### Answers -/

namespace Resolver

variable {σ : Type}

/-- At some time the resolver answers a question about a slot with a value. -/
def Gives (resolver : Resolver (StateM σ)) (current template : Shape) (label : Label) (slot : Slot)
    (v : Value) : Prop :=
  ∃ w w', (resolver.ask current template label slot).run.run w = (.ok v, w')

/-- Whether there is a question about a slot: about every fixed one, and about the keys that either
    shape lists. -/
def Asked (current template : Shape) : Slot → Prop
  | .property key =>
      current.properties.contains key = true ∨ template.properties.contains key = true
  | _ => True

variable (resolver : Resolver (StateM σ)) (current template : Shape) (label : Label)

/-- A shape lists the keys that were asked about, and each slot holds an answer. -/
structure Answered (s : Shape) : Prop where
  listed : ∀ key, s.properties.contains key = true ↔ Asked current template (.property key)
  slots : ∀ slot, Asked current template slot →
    resolver.Gives current template label slot (s.getSlot slot)

variable {resolver current template label}

theorem safe_ask {slot : Slot} :
    Fallible.Safe (fun _ => True) (fun _ => True) (resolver.ask current template label slot)
      (resolver.Gives current template label slot) := by
  intro w _
  refine ⟨trivial, ?_, fun _ _ => trivial⟩
  intro v answer
  exact ⟨w, _, Prod.ext answer rfl⟩

theorem safe_askAll {keys : List Key} :
    Fallible.Safe (fun _ => True) (fun _ => True)
      (keys.mapM fun key => do
        return (key, ← resolver.ask current template label (.property key)))
      fun entries => entries.map (·.1) = keys ∧
        ∀ entry ∈ entries,
          resolver.Gives current template label (.property entry.1) entry.2 := by
  induction keys with
  | nil => exact .pure ⟨rfl, nofun⟩
  | cons key rest ih =>
    rw [List.mapM_cons]
    refine .bind (P := fun entry => entry.1 = key ∧
      resolver.Gives current template label (.property entry.1) entry.2) ?_ ?_
    · exact .bind safe_ask fun v given => .pure ⟨rfl, given⟩
    · rintro ⟨_, v⟩ ⟨rfl, given⟩
      refine .bind ih fun entries answered => .pure ?_
      exact ⟨congrArg _ answered.1, List.forall_mem_cons.mpr ⟨given, answered.2⟩⟩

/-- A shape is answered if its properties are those that were asked about, each with an answer. -/
theorem Answered.of_entries {entries : List (Key × Value)}
    {defaultNumeric defaultOther internalPrototype internalValue : Value} {scope : Scope}
    (keys : entries.map (·.1) = current.commonKeys template)
    (given : ∀ entry ∈ entries,
      resolver.Gives current template label (.property entry.1) entry.2)
    (givenNumeric : resolver.Gives current template label .defaultNumeric defaultNumeric)
    (givenOther : resolver.Gives current template label .defaultOther defaultOther)
    (givenPrototype : resolver.Gives current template label .internalPrototype internalPrototype)
    (givenValue : resolver.Gives current template label .internalValue internalValue) :
    resolver.Answered current template label
      ⟨.ofList entries, defaultNumeric, defaultOther, internalPrototype, internalValue, scope⟩ := by
  have sortedKeys : (entries.map (·.1)).Pairwise (compare · · = .lt) := by
    rw [keys]
    exact FinSet.pairwise_toList _
  have found : ∀ key v, (FinMap.ofList entries).get? key = some v ↔ (key, v) ∈ entries := by
    intro key v
    rw [← FinMap.mem_toList_iff, FinMap.toList_ofList (List.pairwise_map.mp sortedKeys)]
  have listed : ∀ key, Asked current template (.property key) ↔ ∃ v, (key, v) ∈ entries := by
    intro key
    rw [Asked, ← Shape.mem_commonKeys, ← keys]
    simp
  refine ⟨fun key => ?_, fun slot asked => ?_⟩
  · rw [FinMap.contains_eq_true_iff, listed key]
    simp only [found]
  · cases slot with
    | property key =>
      obtain ⟨v, member⟩ := (listed key).mp asked
      have reads : Shape.getSlot ⟨.ofList entries, defaultNumeric, defaultOther, internalPrototype,
          internalValue, scope⟩ (.property key) = v :=
        Shape.get_of_listed ((found key v).mpr member)
      rw [reads]
      exact given _ member
    | defaultNumeric => exact givenNumeric
    | defaultOther => exact givenOther
    | internalValue => exact givenValue
    | internalPrototype => exact givenPrototype

theorem safe_answers :
    Fallible.Safe (fun _ => True) (fun _ => True) (resolver.answers current template label)
      (resolver.Answered current template label) := by
  refine .bind safe_ask fun defaultNumeric givenNumeric =>
    .bind safe_ask fun defaultOther givenOther =>
    .bind safe_ask fun internalValue givenValue =>
    .bind safe_ask fun internalPrototype givenPrototype =>
    .bind (P := fun _ => True) (fun _ _ => ⟨trivial, fun _ _ => trivial, fun _ _ => trivial⟩)
      fun scope _ => .bind safe_askAll fun entries answered => .pure ?_
  exact .of_entries answered.1 answered.2 givenNumeric givenOther givenPrototype givenValue

theorem askScope_inFunction (current template : Shape) :
    inFunction.askScope current template =
      pure (if current.scope = .unknown ∧ template.scope ≠ .unknown then template.scope
        else current.scope) := by
  unfold askScope
  rcases current.scope with _ | chain <;> rcases template.scope with _ | other <;> rfl

theorem answers_inFunction (current template : Shape) (label : Label) :
    inFunction.answers current template label = pure (current.completed template) := by
  have entries : (current.commonKeys template).mapM (fun key => do
        return (key, ← inFunction.ask current template label (.property key))) =
      (pure ((current.commonKeys template).map fun key =>
        (key, localValue (current.get key) (template.get key))) : ExceptT Error Id _) :=
    List.mapM_pure
  unfold answers
  rw [askScope_inFunction, entries]
  rfl

end Resolver

namespace HeapObject

section Outcome

variable {t template o : HeapObject} {label : Label} {σ : Type} {resolver : Resolver (StateM σ)}
  {w w' : σ}

theorem seen_run_localize (writable : t.writable = true) (resolver : Resolver (StateM σ))
    (template : HeapObject) (label : Label) (w : σ) :
    Prod.map (seen (t.shape.commonKeys template.shape)) id
        (((localize resolver template label).run.run t).run w) =
      Prod.map (takeOver t (t.shape.commonKeys template.shape)) id
        ((resolver.answers t.shape template.shape label).run.run w) :=
  congrFun (localize_mirrors writable resolver template label) w

/-- A localization that succeeds has put all answers in place. -/
theorem answers_of_localize_ok (writable : t.writable = true)
    (ran : ((localize resolver template label).run.run t).run w = ((.ok (), o), w')) :
    (resolver.answers t.shape template.shape label).run.run w = (.ok o.shape, w') := by
  have same := seen_run_localize writable resolver template label w
  rw [ran] at same
  rcases answers : (resolver.answers t.shape template.shape label).run.run w with ⟨e | s, w''⟩
  · rw [answers] at same
    cases same
  · rw [answers] at same
    cases same
    rfl

/-- One that is refused has changed no listed key. -/
theorem answers_of_localize_error (writable : t.writable = true) {e : Error}
    (ran : ((localize resolver template label).run.run t).run w = ((.error e, o), w')) :
    (resolver.answers t.shape template.shape label).run.run w = (.error e, w') ∧
      ∀ key ∈ t.shape.commonKeys template.shape, o.shape.get key = t.shape.get key := by
  have same := seen_run_localize writable resolver template label w
  rw [ran] at same
  rcases answers : (resolver.answers t.shape template.shape label).run.run w with ⟨e' | s, w''⟩
  · rw [answers] at same
    simp only [Prod.map, seen, takeOver, Prod.mk.injEq, Except.error.injEq, id] at same
    obtain ⟨⟨rfl, reads⟩, rfl⟩ := same
    exact ⟨rfl, List.map_inj_left.mp reads⟩
  · rw [answers] at same
    cases same

theorem localize_inFunction (writable : t.writable = true) (template : HeapObject) (label : Label) :
    (localize .inFunction template label).run.run t =
      (.ok (), { t with shape := t.shape.completed template.shape, storage := .owned }) := by
  have same := localize_mirrors writable .inFunction template label
  rw [Resolver.answers_inFunction] at same
  rcases ran : (localize .inFunction template label).run.run t with ⟨_ | _, o⟩
  · rw [Mirrors, ran] at same
    cases same
  · rw [Mirrors, ran] at same
    cases same
    rfl

end Outcome

/-- Localization resolves each slot by itself, and its questions are about the slots as they were.
    When it succeeds, the fixed slots and the keys that the object or the template lists hold what
    the resolver answers for them, and all other keys read the defaults resolved so. When it is
    refused, each of the listed keys reads as before.

    Inside one function it succeeds: what is unknown, in the slots and as the scope, is the
    template's from then on, and all else is as it was. To localize once more changes nothing. -/
theorem localize_slotwise {t : HeapObject} (writable : t.writable = true) (template : HeapObject)
    (label : Label) :
    (∀ {σ : Type} (resolver : Resolver (StateM σ)) (w w' : σ) (o : HeapObject),
      ((localize resolver template label).run.run t).run w = ((.ok (), o), w') →
        (resolver.answers t.shape template.shape label).run.run w = (.ok o.shape, w') ∧
        (∀ slot, Resolver.Asked t.shape template.shape slot →
          resolver.Gives t.shape template.shape label slot (o.shape.getSlot slot)) ∧
        ∀ key, ¬Resolver.Asked t.shape template.shape (.property key) →
          o.shape.get key = o.shape.default key) ∧
    (∀ {σ : Type} (resolver : Resolver (StateM σ)) (w w' : σ) (e : Error) (o : HeapObject),
      ((localize resolver template label).run.run t).run w = ((.error e, o), w') →
        (resolver.answers t.shape template.shape label).run.run w = (.error e, w') ∧
        ∀ key, Resolver.Asked t.shape template.shape (.property key) →
          o.shape.get key = t.shape.get key) ∧
    ∃ o, (localize .inFunction template label).run.run t = (.ok (), o) ∧
      (∀ slot, o.shape.getSlot slot =
        if (t.shape.getSlot slot).isUnknown then template.shape.getSlot slot
        else t.shape.getSlot slot) ∧
      (o.shape.scope = if t.shape.scope = .unknown ∧ template.shape.scope ≠ .unknown
        then template.shape.scope else t.shape.scope) ∧
      (localize .inFunction template label).run.run o = (.ok (), o) := by
  refine ⟨?_, ?_, ?_⟩
  · intro σ resolver w w' o ran
    have answers := answers_of_localize_ok writable ran
    have answered := (Resolver.safe_answers w trivial).2.1 _ (congrArg Prod.fst answers)
    refine ⟨answers, answered.slots, fun key unasked => Shape.get_of_not_listed ?_⟩
    simpa [FinMap.contains] using mt (answered.listed key).mp unasked
  · intro σ resolver w w' e o ran
    obtain ⟨answers, reads⟩ := answers_of_localize_error writable ran
    exact ⟨answers, fun key asked => reads key (Shape.mem_commonKeys.mpr asked)⟩
  · refine ⟨_, localize_inFunction writable template label, ?_, rfl, ?_⟩
    · exact Shape.getSlot_completed t.shape template.shape
    · rw [localize_inFunction (t := ⟨t.shape.completed template.shape, t.writable, .owned⟩)
        writable, Shape.completed_completed]

/-- Answers as inside one function, but refuses questions about properties. -/
def slotsOnly : Resolver (StateM Nat) where
  value current template place := do
    modify (· + 1)
    match place.slot with
    | .property _ => return .error (.custom "property")
    | _ => return .ok (Resolver.localValue current template)
  scope current template := return .ok (Resolver.localScope current template)

/-- An object of which one property is known. -/
def mostlyUnknown : HeapObject :=
  .ofShape (Shape.unknown.set (.name "y") Value.undefined.joinModified)

/-- An object with another value there and a second property. -/
def fullyKnown : HeapObject :=
  .ofShape ((Shape.absentModified.set (.name "x") (.ofString "t")).set (.name "y") .null)

/-- After a refusal the second property still reads as unknown, although its default no longer does.
    Without one it is the template's, and the known property stays. -/
theorem mostlyUnknown_localizes :
    (∃ o w', ((localize slotsOnly fullyKnown .global).run.run mostlyUnknown).run 0 =
        ((.error (.custom "property"), o), w') ∧
      o.shape.default (.name "x") = .absentModified ∧ o.shape.get (.name "x") = .unknown) ∧
    ∃ o, (localize .inFunction fullyKnown .global).run.run mostlyUnknown = (.ok (), o) ∧
      o.shape.get (.name "x") = .ofString "t" ∧
      o.shape.get (.name "y") = Value.undefined.joinModified ∧
      o.shape.get (.name "z") = .absentModified ∧ o.shape.scope = .known .empty := by
  obtain ⟨_, refused, o, done, slots, scope, _⟩ :=
    localize_slotwise (t := mostlyUnknown) rfl fullyKnown .global
  refine ⟨⟨_, _, rfl, rfl, ?_⟩, o, done, slots (.property (.name "x")),
    slots (.property (.name "y")), slots (.property (.name "z")), scope⟩
  exact (refused slotsOnly 0 _ _ _ rfl).2 (.name "x") (.inr rfl)

end HeapObject

end ScriptHeap
