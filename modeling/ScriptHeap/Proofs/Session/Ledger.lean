import ScriptHeap.Proofs.Session.FullCopies

/-!
# What is shared is the same

Holders of one property map have equal explicit properties, and holders of one object in heaps see
the same object (`Session.Coherent`). No command can break this, as a write goes to storage of its
own: after it the object that was written has no other holder (`Session.unshared_of_run`).

The proof keeps a ledger beside the session, which notes for each number what is in the storage that
has it. An entry is made when storage is numbered and never changes. So it is enough that each
holder for itself agrees with the ledger, and each command is a matter of the holders that it
touches.
-/

namespace ScriptHeap

open Fallible

/-! ### Storage and what is in it -/

namespace Storage

variable {α : Type} {template : Template → α} {record record' : Nat → α} {n n' : Nat}
  {content : α} {storage : Storage}

/-- A holder's content is that of the template which the storage belongs to, or what was recorded
    for the number of the storage. Nothing is asked of storage with one holder. -/
def Holds (template : Template → α) (record : Nat → α) (n : Nat) (content : α) : Storage → Prop
  | .owned => True
  | .template _ t => content = template t
  | .shared id => id < n ∧ content = record id

/-- Holders of the same storage have the same content. -/
theorem Holds.eq {other : α} (holds : storage.Holds template record n content)
    (holds' : storage.Holds template record n other) (shared : storage ≠ .owned) :
    content = other := by
  cases storage with
  | owned => exact absurd rfl shared
  | template run t => exact holds.trans holds'.symm
  | shared id => exact holds.2.trans holds'.2.symm

/-- Entries for new numbers do not matter. -/
theorem Holds.extend (holds : storage.Holds template record n content) (later : n ≤ n')
    (same : ∀ id < n, record' id = record id) : storage.Holds template record' n' content := by
  cases storage with
  | owned => trivial
  | template run t => exact holds
  | shared id => exact ⟨Nat.lt_of_lt_of_le holds.1 later, holds.2.trans (same id holds.1).symm⟩

theorem le_share (storage : Storage) (n : Nat) : n ≤ (storage.share n).2 := by
  cases storage with
  | owned => exact Nat.le_succ n
  | template | shared => exact Nat.le_refl n

/-- Storage that is numbered holds its content under an entry for the next number. -/
theorem Holds.share (holds : storage.Holds template record n content) :
    (storage.share n).1.Holds template (Function.update record n content) (storage.share n).2
      content := by
  have same : ∀ id < n, Function.update record n content id = record id :=
    fun id earlier => Function.update_of_ne (Nat.ne_of_lt earlier) _ _
  cases storage with
  | owned => exact ⟨Nat.lt_succ_self n, (Function.update_self n content record).symm⟩
  | template | shared => exact holds.extend (Nat.le_refl n) same

theorem settle_cases (holders : List Storage) (storage : Storage) :
    storage.settle holders = .owned ∨ storage.settle holders = storage := by
  unfold settle
  split
  · exact .inl rfl
  · exact .inr rfl

@[simp] theorem settle_owned (holders : List Storage) : Storage.owned.settle holders = .owned :=
  (settle_cases holders .owned).elim id id

theorem Holds.settle (holds : storage.Holds template record n content) (holders : List Storage) :
    (storage.settle holders).Holds template record n content := by
  rcases storage.settle_cases holders with owned | same
  · rw [owned]
    trivial
  · rw [same]
    exact holds

end Storage

/-! ### Ledgers -/

/-- What is in shared storage, by number. -/
structure Ledger where
  /-- The next number. -/
  next : Nat
  maps : Nat → FinMap Key Value
  objects : Nat → ObjectView

/-- The property map is the one that its storage holds. -/
def HeapObject.Filed (L : Ledger) (o : HeapObject) : Prop :=
  o.storage.Holds (fun t => t.shape.properties) L.maps L.next o.shape.properties

/-- The object is the one that its storage holds, and so is its property map. -/
structure Cell.Filed (L : Ledger) (cell : Cell) : Prop where
  map : cell.object.Filed L
  object : cell.storage.Holds (fun t => ⟨t.shape, false⟩) L.objects L.next cell.object.view

namespace Ledger

/-- A later ledger has the entries of the earlier one. -/
structure Extends (L L' : Ledger) : Prop where
  next : L.next ≤ L'.next
  maps : ∀ id < L.next, L'.maps id = L.maps id
  objects : ∀ id < L.next, L'.objects id = L.objects id

namespace Extends

variable {L L' L'' : Ledger}

theorem refl (L : Ledger) : L.Extends L := ⟨Nat.le_refl _, fun _ _ => rfl, fun _ _ => rfl⟩

theorem trans (first : L.Extends L') (second : L'.Extends L'') : L.Extends L'' where
  next := Nat.le_trans first.next second.next
  maps id earlier :=
    (second.maps id (Nat.lt_of_lt_of_le earlier first.next)).trans (first.maps id earlier)
  objects id earlier :=
    (second.objects id (Nat.lt_of_lt_of_le earlier first.next)).trans (first.objects id earlier)

theorem filed (extended : L.Extends L') {o : HeapObject} (filed : o.Filed L) : o.Filed L' :=
  Storage.Holds.extend filed extended.next extended.maps

theorem filedCell (extended : L.Extends L') {cell : Cell} (filed : cell.Filed L) : cell.Filed L' :=
  ⟨extended.filed filed.map, filed.object.extend extended.next extended.objects⟩

end Extends

variable (L : Ledger)

/-- Make an entry for the property map of an object that is numbered. -/
def recordMap (o : HeapObject) : Ledger :=
  ⟨(o.storage.share L.next).2, Function.update L.maps L.next o.shape.properties, L.objects⟩

/-- Make an entry for an object in a heap that is numbered. -/
def recordObject (cell : Cell) : Ledger :=
  ⟨(cell.storage.share L.next).2, L.maps, Function.update L.objects L.next cell.object.view⟩

theorem extends_recordMap (o : HeapObject) : L.Extends (L.recordMap o) where
  next := o.storage.le_share L.next
  maps _ earlier := Function.update_of_ne (Nat.ne_of_lt earlier) _ _
  objects _ _ := rfl

theorem extends_recordObject (cell : Cell) : L.Extends (L.recordObject cell) where
  next := cell.storage.le_share L.next
  maps _ _ := rfl
  objects _ earlier := Function.update_of_ne (Nat.ne_of_lt earlier) _ _

end Ledger

/-- Changes of states keep agreement with a ledger. -/
theorem Cell.closed_filed (L : Ledger) : Cell.Closed (HeapObject.Filed L) (Cell.Filed L) where
  owned owned := by
    unfold HeapObject.Filed
    rw [owned]
    trivial
  heldAs filed held := by
    unfold HeapObject.Filed at filed ⊢
    rcases held with owned | ⟨storage, properties⟩
    · rw [owned]
      trivial
    · rw [storage, properties]
      exact filed
  alone filed := ⟨filed, trivial⟩
  object filed := filed.map

/-- The global object of a new state is a template, and so is its storage. -/
theorem State.filed_initial (L : Ledger) (t : Interner) (function : Nat) (context : CallString)
    (copyOnWriteDisabled : Bool) :
    (State.initial t function context copyOnWriteDisabled).1.EachCell (Cell.Filed L) := by
  have empty : (⟨∅, ∅, context, function, ∅, ∅, copyOnWriteDisabled⟩ : State).EachCell
      (Cell.Filed L) := by
    intro label cell found
    cases found
  exact empty.insert .global ⟨rfl, rfl⟩

/-- The named object whose property map a command writes. -/
def Command.writesObject : Command → Option String
  | .changeObject name change => if change.writesMap then some name else none
  | .restoreObject name _ _ | .localizeObject name _ _ => some name
  | _ => none

/-- The objects in heaps whose property maps a command writes: names of states, and labels. -/
def Command.writesCells (S : Session) : Command → List (String × Label)
  | .changeState name change =>
    (((S.states.get? name).map change.writes).getD []).map (name, ·)
  | _ => []

namespace Session

variable {L : Ledger} {S S' : Session}

/-! ### Numbering holders -/

theorem filed_shareObject {o : HeapObject} (filed : o.Filed L) :
    (shareObject o L.next).1.Filed (L.recordMap o) :=
  Storage.Holds.share filed

/-- The property map of the object is numbered first, and then the object. -/
theorem filed_shareCell {cell : Cell} (filed : cell.Filed L) :
    (shareCell cell L.next).1.Filed ((L.recordMap cell.object).recordObject cell) := by
  have map := filed_shareObject filed.map
  have object := filed.object.extend (L.extends_recordMap cell.object).next
    (L.extends_recordMap cell.object).objects
  exact ⟨((L.recordMap cell.object).extends_recordObject cell).filed map, object.share⟩

theorem filed_shareHeap {heap : FinMap Label Cell}
    (filed : ∀ label cell, heap.get? label = some cell → cell.Filed L) :
    ∃ L', L.Extends L' ∧ (shareHeap heap L.next).2 = L'.next ∧
      ∀ label cell, (shareHeap heap L.next).1.get? label = some cell → cell.Filed L' := by
  refine shareHeap_induction (I := fun acc n => ∃ L', L.Extends L' ∧ n = L'.next ∧
    ∀ label cell, acc.get? label = some cell → cell.Filed L') ⟨L, .refl L, rfl, filed⟩ ?_
  rintro acc _ label cell found ⟨L', extended, rfl, each⟩
  -- The cell comes from the heap as it was at the start, so it is filed in the first ledger.
  have first := L'.extends_recordMap cell.object
  have second := (L'.recordMap cell.object).extends_recordObject cell
  refine ⟨_, extended.trans (first.trans second), rfl, ?_⟩
  intro other held stored
  rw [FinMap.get?_insert] at stored
  split at stored
  · cases stored
    exact filed_shareCell (extended.filedCell (filed label cell found))
  · exact (first.trans second).filedCell (each other held stored)

/-! ### Sessions -/

/-- A command that writes the property map of a named object stores an object with a map of its own
    under the name. -/
theorem of_run_writesObject {c : Command} {name : String} (written : name ∈ c.writesObject)
    {answer : Answer} (done : S.run c = .ok (answer, S')) :
    ∃ o, o.storage = .owned ∧ S' = S.setObject name o := by
  cases c with
  | changeObject other change =>
      obtain ⟨o, _, done⟩ := of_bind_eq_ok done
      obtain ⟨changed, applied, done⟩ := of_bind_eq_ok done
      cases done
      cases writes : change.writesMap with
      | false => simp [Command.writesObject, writes] at written
      | true =>
          simp only [Command.writesObject, writes, if_true, Option.mem_def,
            Option.some.injEq] at written
          subst written
          exact ⟨changed.2, HeapObject.owned_of_apply writes applied, rfl⟩
  | restoreObject other caller nodes =>
      cases written
      obtain ⟨o, _, done⟩ := of_bind_eq_ok done
      obtain ⟨p, _, done⟩ := of_bind_eq_ok done
      obtain ⟨changed, restored, done⟩ := of_bind_eq_ok done
      cases done
      obtain ⟨q, rewritten, rfl⟩ := HeapObject.of_map_eq_ok restored
      exact ⟨q, HeapObject.owned_of_changeProperties rewritten, rfl⟩
  | localizeObject other template label =>
      cases written
      obtain ⟨o, _, done⟩ := of_bind_eq_ok done
      obtain ⟨p, _, done⟩ := of_bind_eq_ok done
      obtain ⟨changed, replied, done⟩ := of_bind_eq_ok done
      cases done
      obtain ⟨_, localized, rfl⟩ := HeapObject.of_map_eq_ok replied
      have writable := HeapObject.writable_of_localize localized
      exact ⟨_, HeapObject.owned_of_localize .inFunction o label writable, rfl⟩
  | _ => exact absurd written (Option.not_mem_none _)

/-- Every holder of the session agrees with the ledger, which has the next number of the session. -/
structure Filed (L : Ledger) (S : Session) : Prop where
  each : S.Each (HeapObject.Filed L) (Cell.Filed L)
  next : S.fresh = L.next

namespace Filed

theorem extend {L' : Ledger} (filed : S.Filed L) (extended : L.Extends L') :
    ({ S with fresh := L'.next } : Session).Filed L' where
  each := ⟨fun name o stored => extended.filed (filed.each.objects name o stored),
    fun name s stored label cell found =>
      extended.filedCell (filed.each.cells name s stored label cell found)⟩
  next := rfl

theorem putObject (filed : S.Filed L) (name : String) {o : HeapObject} (holds : o.Filed L) :
    (S.putObject name o).Filed L :=
  ⟨filed.each.putObject name holds, filed.next⟩

theorem putState (filed : S.Filed L) (name : String) {s : State}
    (holds : s.EachCell (Cell.Filed L)) :
    (S.putState name s).Filed L :=
  ⟨filed.each.putState name holds, filed.next⟩

theorem withInterner (filed : S.Filed L) (i : Interner) :
    ({ S with interner := i } : Session).Filed L :=
  ⟨filed.each.withInterner i, filed.next⟩

/-- Settling takes holders away and gives nobody other content. -/
theorem settle (filed : S.Filed L) : S.settle.Filed L := by
  refine ⟨⟨fun name o stored => ?_, fun name s stored label cell found => ?_⟩, filed.next⟩
  · rw [get?_settle_objects] at stored
    obtain ⟨old, held, rfl⟩ := Option.map_eq_some_iff.mp stored
    exact Storage.Holds.settle (filed.each.objects name old held) _
  · rw [get?_settle_states] at stored
    obtain ⟨old, held, rfl⟩ := Option.map_eq_some_iff.mp stored
    rw [FinMap.get?_mapValues] at found
    obtain ⟨oldCell, heldCell, rfl⟩ := Option.map_eq_some_iff.mp found
    have before := filed.each.cells name old held label oldCell heldCell
    exact ⟨Storage.Holds.settle before.map _, Storage.Holds.settle before.object _⟩

theorem sharedObject (filed : S.Filed L) {name : String} {o : HeapObject}
    (done : S.sharedObject name = .ok (o, S')) : ∃ L', o.Filed L' ∧ S'.Filed L' := by
  obtain ⟨p, found, done⟩ := of_bind_eq_ok done
  cases done
  have holds := filed.each.object found
  rw [filed.next]
  have extended := L.extends_recordMap p
  exact ⟨L.recordMap p, filed_shareObject holds,
    (filed.extend extended).putObject name (filed_shareObject holds)⟩

theorem sharedState (filed : S.Filed L) {name : String} {s : State}
    (done : S.sharedState name = .ok (s, S')) :
    ∃ L', s.EachCell (Cell.Filed L') ∧ S'.Filed L' := by
  obtain ⟨t, found, done⟩ := of_bind_eq_ok done
  cases done
  rw [filed.next]
  obtain ⟨L', extended, next, each⟩ := filed_shareHeap (filed.each.state found)
  have holds : ({ t with heap := (shareHeap t.heap L.next).1 } : State).EachCell (Cell.Filed L') :=
    each
  have stored := ((filed.extend extended).putState name holds).each
  exact ⟨L', holds, ⟨stored.objects, stored.cells⟩, next⟩

/-! Storing and settling. -/

theorem setObject (filed : S.Filed L) (name : String) {o : HeapObject} (holds : o.Filed L) :
    (S.setObject name o).Filed L :=
  (filed.putObject name holds).settle

/-- An object with a property map of its own agrees with every ledger. -/
theorem setOwned (filed : S.Filed L) (name : String) {o : HeapObject} (owned : o.storage = .owned) :
    (S.setObject name o).Filed L :=
  filed.setObject name ((Cell.closed_filed L).owned owned)

theorem setState (filed : S.Filed L) (name : String) {s : State}
    (holds : s.EachCell (Cell.Filed L)) :
    (S.setState name s).Filed L :=
  (filed.putState name holds).settle

/-- A command keeps the agreement, with a ledger that may have more entries. -/
theorem run (filed : S.Filed L) {c : Command} {answer : Answer}
    (done : S.run c = .ok (answer, S')) : ∃ L', S'.Filed L' := by
  cases c with
  | newObject name template =>
      cases done
      exact ⟨L, filed.setOwned name rfl⟩
  | copyObject source name =>
      obtain ⟨⟨o, S₁⟩, shared, done⟩ := of_bind_eq_ok done
      cases done
      obtain ⟨L', holds, filed'⟩ := filed.sharedObject shared
      exact ⟨L', filed'.setObject name ((Cell.closed_filed L').heldAs holds (.inr ⟨rfl, rfl⟩))⟩
  | deepCopyObject source name | relabelObject source r name =>
      obtain ⟨o, _, done⟩ := of_bind_eq_ok done
      cases done
      exact ⟨L, filed.setOwned name rfl⟩
  | joinObjects a b name =>
      obtain ⟨o, _, done⟩ := of_bind_eq_ok done
      obtain ⟨p, _, done⟩ := of_bind_eq_ok done
      cases done
      exact ⟨L, filed.setOwned name rfl⟩
  | dropObject name =>
      cases done
      exact ⟨L, settle ⟨filed.each.dropObject name, filed.next⟩⟩
  | changeObject name change =>
      obtain ⟨o, found, done⟩ := of_bind_eq_ok done
      obtain ⟨changed, applied, done⟩ := of_bind_eq_ok done
      cases done
      have holds := (Cell.closed_filed L).heldAs (filed.each.object found)
        (HeapObject.heldAs_of_apply applied)
      exact ⟨L, filed.setObject name holds⟩
  | restoreObject name caller nodes | localizeObject name template label =>
      obtain ⟨o, owned, rfl⟩ := of_run_writesObject (Option.mem_some_self name) done
      exact ⟨L, filed.setOwned name owned⟩
  | newState name function context copyOnWriteDisabled =>
      cases done
      exact ⟨L, (filed.withInterner _).setState name
        (State.filed_initial L S.interner function context copyOnWriteDisabled)⟩
  | cloneState source name =>
      obtain ⟨⟨s, S₁⟩, shared, done⟩ := of_bind_eq_ok done
      cases done
      obtain ⟨L', holds, filed'⟩ := filed.sharedState shared
      exact ⟨L', filed'.setState name holds⟩
  | changeState name change =>
      obtain ⟨s, found, done⟩ := of_bind_eq_ok done
      obtain ⟨answered, applied, done⟩ := of_bind_eq_ok done
      cases done
      have holds := State.EachCell.change (Cell.closed_filed L).stable (filed.each.state found)
        (fun _ _ => trivial) applied
      exact ⟨L, (filed.withInterner _).setState name holds⟩
  | storeCopy name label source frozen =>
      obtain ⟨⟨o, S₁⟩, shared, done⟩ := of_bind_eq_ok done
      obtain ⟨s, found, done⟩ := of_bind_eq_ok done
      cases done
      obtain ⟨L', holds, filed'⟩ := filed.sharedObject shared
      have closed := Cell.closed_filed L'
      have copied : (if frozen then o.copy.freeze else o.copy).Filed L' := by
        cases frozen with
        | true => exact closed.heldAs holds (.inr ⟨rfl, rfl⟩)
        | false => exact closed.heldAs holds (.inr ⟨rfl, rfl⟩)
      have stored := State.EachCell.newObject closed.stable (filed'.each.state found) label
        (closed.alone copied)
      exact ⟨L', filed'.setState name stored⟩
  | storeObject name label source frozen =>
      obtain ⟨o, _, done⟩ := of_bind_eq_ok done
      obtain ⟨s, found, done⟩ := of_bind_eq_ok done
      cases done
      have owned : (if frozen then o.deepCopy.freeze else o.deepCopy).storage = .owned := by
        cases frozen <;> rfl
      have closed := Cell.closed_filed L
      have holds := State.EachCell.newObject closed.stable (filed.each.state found) label
        (closed.alone (closed.owned owned))
      exact ⟨L, filed.setState name holds⟩
  | joinStates name other =>
      -- The other state is numbered before this one is looked up, as the two may be one state.
      obtain ⟨⟨t, S₁⟩, shared, done⟩ := of_bind_eq_ok done
      obtain ⟨s, found, done⟩ := of_bind_eq_ok done
      cases done
      obtain ⟨L', holds, filed'⟩ := filed.sharedState shared
      have joined :=
        State.EachCell.join (Cell.closed_filed L').stable (filed'.each.state found) holds
      exact ⟨L', filed'.setState name joined⟩
  | reset =>
      cases done
      exact ⟨L, (filed.withInterner _).settle⟩

end Filed

/-! ### Coherence -/

/-- The objects that are alive: the templates of the run, the named objects, and those in the heaps
    of states. -/
def liveObjects (S : Session) : List HeapObject :=
  Template.all.map S.interner.template ++ S.objects.values ++ S.cells.map Cell.object

/-- Holders of one property map have equal explicit properties, and holders of one object see the
    same object. -/
structure Coherent (S : Session) : Prop where
  maps : ∀ o ∈ S.liveObjects, ∀ p ∈ S.liveObjects, o.storage = p.storage → o.isUnshared = false →
    o.shape.properties = p.shape.properties
  objects : ∀ c ∈ S.cells, ∀ d ∈ S.cells, c.storage = d.storage → c.storage ≠ .owned →
    c.object.view = d.object.view

theorem Each.of_mem_cells {Q : HeapObject → Prop} {P : Cell → Prop} (each : S.Each Q P)
    {cell : Cell} (member : cell ∈ S.cells) : P cell := by
  obtain ⟨s, listed, held⟩ := List.mem_flatMap.mp member
  obtain ⟨name, stored⟩ := FinMap.mem_values_iff.mp listed
  obtain ⟨label, found⟩ := FinMap.mem_values_iff.mp held
  exact each.cells name s stored label cell found

theorem Filed.of_mem_liveObjects (filed : S.Filed L) {o : HeapObject} (member : o ∈ S.liveObjects) :
    o.Filed L := by
  rcases List.mem_append.mp member with listed | inHeap
  · rcases List.mem_append.mp listed with isTemplate | named
    · obtain ⟨t, _, rfl⟩ := List.mem_map.mp isTemplate
      exact rfl
    · obtain ⟨name, stored⟩ := FinMap.mem_values_iff.mp named
      exact filed.each.objects name o stored
  · obtain ⟨cell, held, rfl⟩ := List.mem_map.mp inHeap
    exact (filed.each.of_mem_cells held).map

theorem Filed.coherent (filed : S.Filed L) : S.Coherent where
  maps o live p live' same shared := by
    have owned : o.storage ≠ .owned := of_decide_eq_false shared
    have first : o.storage.Holds _ _ _ _ := filed.of_mem_liveObjects live
    have second : p.storage.Holds _ _ _ _ := filed.of_mem_liveObjects live'
    rw [← same] at second
    exact first.eq second owned
  objects c held d held' same shared := by
    have first := (filed.each.of_mem_cells held).object
    have second := (filed.each.of_mem_cells held').object
    rw [← same] at second
    exact first.eq second shared

/-- The session without objects and states, after some interning. -/
def start (t : Interner) : Session := { empty with interner := t }

theorem each_start (t : Interner) (Q : HeapObject → Prop) (P : Cell → Prop) :
    (start t).Each Q P := by
  constructor
  · intro name o stored
    cases stored
  · intro name s stored
    cases stored

/-- After every script, what is shared is the same. -/
theorem coherent_runAll (t : Interner) (script : List Command) :
    ((start t).runAll run script).2.Coherent := by
  have filed : ∃ L, (start t).Filed L :=
    ⟨⟨0, fun _ => ∅, fun _ => ⟨.none, false⟩⟩, each_start t _ _, rfl⟩
  obtain ⟨L, last⟩ := runAll_keeps (P := fun S => ∃ L, S.Filed L)
    (fun S c answer S' before done => before.elim fun L held => held.run done) script filed
  exact last.coherent

/-! ### Written objects -/

theorem unshared_setObject (S : Session) (name : String) {o : HeapObject}
    (owned : o.storage = .owned) :
    ∃ p, (S.setObject name o).object name = .ok p ∧ p.isUnshared = true := by
  have stored := (S.putObject name o).get?_settle_objects name
  rw [get?_putObject, if_pos rfl, Option.map_some, owned, Storage.settle_owned] at stored
  exact ⟨_, object_eq_ok_iff.mpr stored, rfl⟩

theorem owns_setState (S : Session) (name : String) {s : State} {label : Label}
    (owns : s.Owns label) : ∃ t, (S.setState name s).state name = .ok t ∧ t.Owns label := by
  obtain ⟨cell, found, stored, map⟩ := owns
  have kept := (S.putState name s).get?_settle_states name
  rw [get?_putState, if_pos rfl, Option.map_some] at kept
  refine ⟨_, state_eq_ok_iff.mpr kept, _,
    (FinMap.get?_mapValues _ _ _).trans (congrArg _ found), ?_⟩
  simp [stored, map]

/-- A command that writes the property map of an object leaves the object unshared. -/
theorem unshared_of_run {c : Command} {answer : Answer} (done : S.run c = .ok (answer, S')) :
    (∀ name ∈ c.writesObject, ∃ o, S'.object name = .ok o ∧ o.isUnshared = true) ∧
      ∀ place ∈ c.writesCells S, ∃ s, S'.state place.1 = .ok s ∧ s.Owns place.2 := by
  constructor
  · intro name written
    obtain ⟨o, owned, rfl⟩ := of_run_writesObject written done
    exact S.unshared_setObject name owned
  · intro place member
    cases c with
    | changeState name change =>
        obtain ⟨s, found, done⟩ := of_bind_eq_ok done
        obtain ⟨answered, applied, done⟩ := of_bind_eq_ok done
        cases done
        simp only [Command.writesCells, state_eq_ok_iff.mp found] at member
        obtain ⟨label, listed, rfl⟩ := List.mem_map.mp member
        exact owns_setState _ name (State.owns_of_apply applied label listed)
    | _ => exact absurd member List.not_mem_nil

end Session

end ScriptHeap
