import ScriptHeap.Proofs.Transfer.Calls
import ScriptHeap.Proofs.Transfer.Logic

/-!
# Reading a property of a mixed value

A value may be an object of the program and, at once, a class or an instance of the host. A read of
a property then asks the host once for each label on its side, and runs the ordinary rule while the
base holds the ordinary part alone. The answers are joined in the order of the labels, and what the
ordinary rule writes is joined to them.

The rule fails only where the host has no answer, and it has not touched the state by then: asking
changes no more than the host and the interner, and the ordinary rule cannot fail on a name that is
known (`Foreign.readProperty_combines`).
-/

namespace ScriptHeap

open Fallible

/-! ### Labels that the host is asked about -/

/-- The labels of classes and instances of the host, in order. -/
def Value.hostLabels (v : Value) : List Label :=
  v.labels.toList.filter fun label => label.kind = .foreignType || label.kind = .foreignObject

theorem Value.map_label_hostParts (v : Value) :
    (v.hostParts.filter fun part => !part.isRoot).map HostPart.label = v.hostLabels := by
  have each : ∀ label : Label,
      ((HostPart.ofLabel? label).filter fun part => !part.isRoot).map HostPart.label =
        Option.guard (fun label => label.kind = .foreignType || label.kind = .foreignObject)
          label := by
    rintro ⟨node, kind, className⟩
    cases kind <;> rfl
  rw [hostParts, hostLabels, List.filter_filterMap, List.map_filterMap, funext each,
    List.filterMap_eq_filter]

/-- A value with labels is not a known string. -/
theorem Value.exactString?_of_hostLabels {v : Value} (asked : v.hostLabels ≠ []) :
    v.exactString? = Option.none := by
  have objects : v.maybeObject = true := by
    refine Bool.of_not_eq_false fun missing => asked ?_
    have empty : v.labels.isEmpty = true := by simpa [maybeObject] using missing
    have none : v.labels.toList = [] :=
      List.eq_nil_iff_forall_not_mem.mpr fun label member =>
        FinSet.isEmpty_eq_true_iff.mp empty label (FinSet.mem_toList.mp member)
    rw [hostLabels, none]
    rfl
  simp [exactString?, objects]

namespace ClassTable

variable {table : ClassTable} {name : String}

/-- The class of a label, with what the table answers for a field of it. -/
def fieldAnswer? (table : ClassTable) (name : String) (label : Label) : Option (String × Value) :=
  label.className.bind fun c => (table.field? c name).map fun v => (c, v)

/-- The classes of some labels, with what the table answers for a field of each. -/
def fieldAnswers? (table : ClassTable) (name : String) (labels : List Label) :
    Option (List (String × Value)) :=
  labels.mapM (table.fieldAnswer? name)

/-- The table after it was asked for a field of some classes. -/
def askedFields (table : ClassTable) (name : String) (classes : List String) : ClassTable :=
  { table with queries := table.queries ++ classes.map fun c => .propertyValue c name }

theorem askedFields_cons (c : String) (rest : List String) :
    (table.asked (.propertyValue c name)).askedFields name rest =
      table.askedFields name (c :: rest) := by
  simp [askedFields, asked]

theorem run_propertyValue {c : String} {v : Value} {table' : ClassTable} :
    (propertyValue c name).run.run table = (.ok v, table') ↔
      table.field? c name = some v ∧ table' = table.asked (.propertyValue c name) :=
  run_askMember HostClass.fields _ "field"

end ClassTable

namespace Foreign

open Transfer

variable {node : Node} {name : String}

/-! ### Asking the host -/

/-- Ask the host for a property of the class of a label, and join the answer. -/
def askLabel {σ : Type} (setting : Setting σ) (node : Node) (name : String) (v : Value)
    (label : Label) : Transfer σ Value := do
  let c ← className label
  notify (.hostQuery node.index c name)
  return v.join (← askValue (setting.host.propertyValue c name))

theorem askProperties_eq {σ : Type} (setting : Setting σ) (parts : List Value.HostPart) :
    askProperties setting node name parts =
      (parts.map Value.HostPart.label).foldlM (askLabel setting node name) .none := by
  rw [List.foldlM_map]
  rfl

section Asking

variable {setting : Setting ClassTable} {m : Machine ClassTable}

theorem run_askLabel (node : Node) (host : setting.host = ClassTable.host) {label : Label}
    {c : String} {a : Value} (answered : m.host.fieldAnswer? name label = some (c, a)) (v : Value) :
    ∃ m', (askLabel setting node name v label).run.run m = (.ok (v.join a), m') ∧
      m'.state = m.state ∧ m'.host = m.host.asked (.propertyValue c name) := by
  obtain ⟨c', known, rest⟩ := Option.bind_eq_some_iff.mp answered
  obtain ⟨a', found, same⟩ := Option.map_eq_some_iff.mp rest
  cases same
  have answer : (setting.host.propertyValue c name).run.run m.host =
      (.ok a, m.host.asked (.propertyValue c name)) := by
    rw [host]
    exact ClassTable.run_propertyValue.mpr ⟨found, rfl⟩
  let m₁ : Machine ClassTable := { m with events := m.events ++ [.hostQuery node.index c name] }
  refine ⟨{ m₁ with
    interner := m.interner.addValue a, host := m.host.asked (.propertyValue c name) }, ?_, rfl, rfl⟩
  have notified : (notify (.hostQuery node.index c name)).run.run m = (.ok (), m₁) := rfl
  unfold askLabel askValue
  rw [run_bind_of_ok _ (run_className known), run_bind_of_ok _ notified, bind_assoc,
    run_bind_of_ok _ (run_ask (m := m₁) answer), run_bind_of_ok _ (run_internValue a _)]
  rfl

theorem run_askLabel_of_none (node : Node) (host : setting.host = ClassTable.host) {label : Label}
    (missing : m.host.fieldAnswer? name label = none) (v : Value) :
    ∃ e m', (askLabel setting node name v label).run.run m = (.error e, m') ∧
      m'.state = m.state := by
  unfold askLabel
  cases known : label.className with
  | none =>
      have unnamed : (className label).run.run m =
          (.error (.invariant (.noClassName label)), m) := by
        unfold className
        rw [known]
        rfl
      exact ⟨_, m, run_bind_of_error _ unnamed, rfl⟩
  | some c =>
      let m₁ : Machine ClassTable := { m with events := m.events ++ [.hostQuery node.index c name] }
      have notified : (notify (.hostQuery node.index c name)).run.run m = (.ok (), m₁) := rfl
      rw [run_bind_of_ok _ (run_className known), run_bind_of_ok _ notified]
      rcases ran : (ClassTable.propertyValue c name).run.run m.host with ⟨e | a, h'⟩
      · have asked : (ask (setting.host.propertyValue c name)).run.run m₁ =
            (.error e, { m₁ with host := h' }) := by
          show (((setting.host.propertyValue c name).run.run m.host).1,
            { m₁ with host := ((setting.host.propertyValue c name).run.run m.host).2 }) = _
          rw [host]
          show (((ClassTable.propertyValue c name).run.run m.host).1,
            { m₁ with host := ((ClassTable.propertyValue c name).run.run m.host).2 }) = _
          rw [ran]
        exact ⟨e, _, run_bind_of_error _ (run_bind_of_error _ asked), rfl⟩
      · obtain ⟨found, _⟩ := ClassTable.run_propertyValue.mp ran
        simp [ClassTable.fieldAnswer?, known, found] at missing

/-- All labels are asked about in order, if there is an answer for each. -/
theorem run_askLabels (node : Node) (host : setting.host = ClassTable.host) {labels : List Label}
    {answers : List (String × Value)} (answered : m.host.fieldAnswers? name labels = some answers)
    (start : Value) :
    ∃ m', (labels.foldlM (askLabel setting node name) start).run.run m =
        (.ok ((answers.map Prod.snd).foldl Value.join start), m') ∧
      m'.state = m.state ∧ m'.host = m.host.askedFields name (answers.map Prod.fst) := by
  induction labels generalizing m start answers with
  | nil =>
      cases answered
      exact ⟨m, rfl, rfl, by simp [ClassTable.askedFields]⟩
  | cons label rest ih =>
      rw [ClassTable.fieldAnswers?, List.mapM_cons] at answered
      obtain ⟨⟨c, a⟩, first, others⟩ := Option.bind_eq_some_iff.mp answered
      obtain ⟨later, known, same⟩ := Option.bind_eq_some_iff.mp others
      cases same
      obtain ⟨m₁, asked, state, remembered⟩ := run_askLabel node host first start
      have unchanged : m₁.host.fieldAnswers? name rest = some later := by
        rw [remembered]
        exact known
      obtain ⟨m', ran, stateRest, rememberedRest⟩ := ih unchanged (start.join a)
      refine ⟨m', ?_, stateRest.trans state, ?_⟩
      · rw [List.foldlM_cons, run_bind_of_ok _ asked]
        exact ran
      · rw [rememberedRest, remembered, ClassTable.askedFields_cons]
        rfl

/-- Where an answer is missing, asking fails, and the state is as before. -/
theorem run_askLabels_of_none (node : Node) (host : setting.host = ClassTable.host)
    {labels : List Label} (missing : m.host.fieldAnswers? name labels = none) (start : Value) :
    ∃ e m', (labels.foldlM (askLabel setting node name) start).run.run m = (.error e, m') ∧
      m'.state = m.state := by
  induction labels generalizing m start with
  | nil => cases missing
  | cons label rest ih =>
      rw [List.foldlM_cons]
      cases first : m.host.fieldAnswer? name label with
      | none =>
          obtain ⟨e, m', failed, state⟩ := run_askLabel_of_none node host first start
          exact ⟨e, m', run_bind_of_error _ failed, state⟩
      | some entry =>
          obtain ⟨c, a⟩ := entry
          obtain ⟨m₁, asked, state, remembered⟩ := run_askLabel node host first start
          have still : m₁.host.fieldAnswers? name rest = none := by
            rw [ClassTable.fieldAnswers?, List.mapM_cons, first] at missing
            rw [remembered]
            cases known : m.host.fieldAnswers? name rest with
            | none => exact known
            | some later =>
                rw [ClassTable.fieldAnswers?] at known
                simp [known] at missing
          obtain ⟨e, m', failed, stateRest⟩ := ih still (start.join a)
          refine ⟨e, m', ?_, stateRest.trans state⟩
          rw [run_bind_of_ok _ asked]
          exact failed

end Asking

end Foreign

/-! ### The ordinary part -/

namespace Machine

variable {σ : Type} {result : Option Register} {m m' m'' : Machine σ}

/-- The machine with another value in a register. -/
def withRegister (m : Machine σ) (r : Register) (v : Value) : Machine σ :=
  { m with state := m.state.writeRegister r v }

/-- The heap is the same, and so are the values of all registers but that of a result. -/
structure WritesOnly (result : Option Register) (m m' : Machine σ) : Prop where
  heap : m'.state.heap = m.state.heap
  others : ∀ r, result ≠ some r → m'.state.registers.get? r = m.state.registers.get? r

theorem WritesOnly.of_state (same : m'.state = m.state) : m.WritesOnly result m' where
  heap := by rw [same]
  others r _ := by rw [same]

theorem WritesOnly.trans (first : m.WritesOnly result m') (second : m'.WritesOnly result m'') :
    m.WritesOnly result m'' where
  heap := second.heap.trans first.heap
  others r other := (second.others r other).trans (first.others r other)

end Machine

namespace Foreign

open Transfer

variable {node : Node}

section Ordinary

variable {σ : Type} {setting : Setting σ} {m : Machine σ} {result : Option Register}
  {base : Register} {property : PropertyName} {whole ordinary : Value} {key : Option Key}

theorem kind_of_read (operation : node.operation = .readProperty result base property) :
    node.kind = .readProperty := by
  show node.operation.kind = _
  rw [operation]
  rfl

/-- The ordinary rule for reads leaves the heap alone. -/
theorem heap_fallback_read (setting : Setting σ) (m : Machine σ)
    (operation : node.operation = .readProperty result base property) :
    ((Dispatcher.fallback setting node).run.run m).2.state.heap = m.state.heap := by
  have safe : Safe (fun n : Machine σ => n.state.heap = m.state.heap) (fun _ => True)
      (Ordinary.readProperty setting node) fun _ => True := by
    unfold Ordinary.readProperty
    rw [operation]
    refine .bind (.of_reads fun m => .readRegister m base) fun u _ =>
      .bind (.of_reads fun m => .propertyKey? m property) fun key _ =>
        .bind (.of_reads (r := fun m => .ok m.state) fun _ => rfl) fun s _ => ?_
    cases result with
    | none => exact .pure trivial
    | some r =>
        refine .bind (.modify fun _ same => same) fun _ _ => ?_
        rcases key with _ | key
        · exact .pure trivial
        · rcases u.labels.toList with _ | ⟨label, _ | _⟩
          · exact .pure trivial
          · exact .bind (.modify fun _ same => same) fun _ _ => .pure trivial
          · exact .pure trivial
  show ((Ordinary.rule node.kind setting node).run.run m).2.state.heap = _
  rw [kind_of_read operation]
  exact (safe m rfl).1

/-- The ordinary rule for reads writes what the property reads as, and nothing else. -/
theorem run_fallback_read (setting : Setting σ)
    (operation : node.operation = .readProperty result base property)
    (held : m.state.registers.get? base = some whole)
    (named : m.state.contents.key? property = .ok key) :
    ∃ m', (Dispatcher.fallback setting node).run.run m = (.ok .pending, m') ∧
      m'.host = m.host ∧ m'.state.heap = m.state.heap ∧
      ∀ r, m'.state.registers.get? r =
        if result = some r then some (m.state.contents.readThrough whole key)
        else m.state.registers.get? r := by
  have read : m.state.contents.readRegister base = .ok whole :=
    Contents.readRegister_of_registers held
  have step : m.state.contents.step setting.program node =
      .ok (m.state.contents.write? result (m.state.contents.readThrough whole key)) := by
    unfold Contents.step
    rw [operation]
    show (m.state.contents.readRegister base >>= _) = _
    rw [read]
    show (m.state.contents.key? property >>= _) = _
    rw [named]
    rfl
  have ends := Ordinary.run_rule setting node m
  rw [step] at ends
  obtain ⟨handover, m', ran, rfl, after⟩ := ends
  refine ⟨m', ran, after.host, ?_, fun r => ?_⟩
  · have heap := heap_fallback_read setting m operation
    rw [show (Dispatcher.fallback setting node).run.run m = (.ok .pending, m') from ran] at heap
    exact heap
  · show m'.state.contents.registers r = _
    rw [after.contents, Contents.registers_write?]
    rfl

/-- A name that is known stays so when a register changes that is no known string. -/
theorem key?_withRegister (held : m.state.registers.get? base = some whole)
    (asked : whole.hostLabels ≠ []) {k : Key}
    (named : m.state.contents.key? property = .ok (some k)) (v : Value) :
    (m.withRegister base v).state.contents.key? property = .ok (some k) := by
  cases property with
  | fixed name => exact named
  | dynamic q =>
      have distinct : q ≠ base := by
        rintro rfl
        have read : m.state.contents.readRegister q = .ok whole :=
          Contents.readRegister_of_registers held
        rw [Contents.key?, read] at named
        simp [bind, Except.bind, pure, Except.pure, Value.exactString?_of_hostLabels asked] at named
      have same : (m.withRegister base v).state.contents.registers q =
          m.state.contents.registers q :=
        FinMap.get?_insert_of_ne _ distinct v
      have read : (m.withRegister base v).state.contents.readRegister q =
          m.state.contents.readRegister q := by
        unfold Contents.readRegister
        rw [same]
      rw [Contents.key?, read]
      exact named

/-- The ordinary rule runs while the base holds the ordinary part alone, which is put back unless
    the base is the result. -/
theorem run_ordinaryPart_read (setting : Setting σ)
    (operation : node.operation = .readProperty result base property)
    (held : m.state.registers.get? base = some whole)
    (named : (m.withRegister base ordinary).state.contents.key? property = .ok key) :
    ∃ m', (ordinaryPart Dispatcher.fallback setting node base ordinary result).run.run m =
        (.ok (result.map fun _ => m.state.contents.readThrough ordinary key), m') ∧
      m'.host = m.host ∧ m.WritesOnly result m' := by
  have narrowed : (modifyState fun s => s.writeRegister base ordinary).run.run m =
      (.ok (), m.withRegister base ordinary) := rfl
  have holds : (m.withRegister base ordinary).state.registers.get? base = some ordinary :=
    FinMap.get?_insert_self _ _ _
  obtain ⟨m₁, ran, host, heap, registers⟩ := run_fallback_read setting operation holds named
  have others : ∀ r, r ≠ base → result ≠ some r →
      m₁.state.registers.get? r = m.state.registers.get? r := by
    intro r distinct other
    rw [registers, if_neg other]
    exact FinMap.get?_insert_of_ne _ distinct ordinary
  unfold ordinaryPart
  rw [run_bind_of_ok _ (run_readRegister.mpr ⟨held, rfl⟩), run_bind_of_ok _ narrowed,
    run_bind_of_ok _ (run_attempt ran)]
  by_cases same : result = some base
  · rw [if_neg (by simp [same])]
    refine ⟨m₁, ?_, host, heap, fun r other => others r ?_ other⟩
    · have written := registers base
      rw [if_pos same] at written
      rw [same]
      show (Except.ok (m₁.state.registers.get? base), m₁) = _
      rw [written]
      rfl
    · rintro rfl
      exact other same
  · rw [if_pos (by simpa using same)]
    refine ⟨m₁.withRegister base whole, ?_, host, heap, fun r other => ?_⟩
    · show (Except.ok (result.bind (m₁.withRegister base whole).state.registers.get?), _) = _
      cases result with
      | none => rfl
      | some q =>
          have distinct : q ≠ base := fun equal => same (congrArg some equal)
          have written := registers q
          rw [if_pos rfl] at written
          show (Except.ok ((m₁.state.registers.insert base whole).get? q), _) = _
          rw [FinMap.get?_insert_of_ne _ distinct, written]
          rfl
    · -- The base itself is one of the other registers here.
      show (m₁.state.registers.insert base whole).get? r = _
      rw [FinMap.get?_insert]
      split
      · rename_i equal
        rw [equal, held]
      · rename_i distinct
        exact others r distinct other

/-- What the ordinary rule gives for the ordinary part is joined to a value. -/
theorem run_joinOrdinaryPart_read (setting : Setting σ)
    (operation : node.operation = .readProperty result base property)
    (held : m.state.registers.get? base = some whole)
    (named : (m.withRegister base whole.notForeign).state.contents.key? property = .ok key)
    (v : Value) :
    ∃ m', (joinOrdinaryPart Dispatcher.fallback setting node base result v).run.run m =
        (.ok (if whole.notForeign.isNone then v
          else result.elim v fun _ => v.join (m.state.contents.readThrough whole.notForeign key)),
          m') ∧
      m'.host = m.host ∧ m.WritesOnly result m' := by
  unfold joinOrdinaryPart
  rw [run_bind_of_ok _ (run_readRegister.mpr ⟨held, rfl⟩)]
  dsimp only
  split
  · exact ⟨m, rfl, rfl, .of_state rfl⟩
  · obtain ⟨m', ran, host, frame⟩ := run_ordinaryPart_read setting operation held named
    refine ⟨m', ?_, host, frame⟩
    rw [run_bind_of_ok _ ran]
    cases result <;> rfl

theorem writesOnly_writeResult? (m : Machine σ) (node : Node) (result : Option Register)
    (v : Value) :
    ∃ m', (writeResult? node result v).run.run m = (.ok (), m') ∧ m'.host = m.host ∧
      m.WritesOnly result m' ∧ ∀ r, result = some r → m'.state.registers.get? r = some v := by
  cases result with
  | none => exact ⟨m, rfl, rfl, .of_state rfl, fun r same => by cases same⟩
  | some q =>
      refine ⟨_, rfl, rfl, ⟨rfl, fun r other => ?_⟩, fun r same => ?_⟩
      · exact FinMap.get?_insert_of_ne _ (fun equal => other (congrArg some equal.symm)) v
      · cases same
        exact FinMap.get?_insert_self _ _ _

end Ordinary

/-! ### Reads of mixed values -/

/-- The answers, joined one after the other. -/
def joinAnswers (answers : List (String × Value)) : Value :=
  (answers.map Prod.snd).foldl Value.join .none

/-- What a read leaves that combines the answers of the host for some classes with what the ordinary
    rule writes for the ordinary part. -/
structure Combines (setting : Setting ClassTable) (node : Node) (result : Option Register)
    (base : Register) (v : Value) (name : String) (answers : List (String × Value))
    (m m' : Machine ClassTable) : Prop where
  host : m'.host = m.host.askedFields name (answers.map Prod.fst)
  frame : m.WritesOnly result m'
  value : ∀ r, result = some r → ∃ u, m'.state.registers.get? r = some u ∧
    (v.notForeign.isNone = true → u = joinAnswers answers) ∧
    (v.notForeign.isNone = false → ∃ m₁ w,
      (Dispatcher.fallback setting node).run.run (m.withRegister base v.notForeign) =
        (.ok .pending, m₁) ∧ m₁.state.registers.get? r = some w ∧
      u = (joinAnswers answers).join w)

section Reads

variable {setting : Setting ClassTable} {m : Machine ClassTable} {result : Option Register}
  {base : Register} {property : PropertyName} {v : Value} {name : String}

/-- The read of a property whose name is known, of a value that the host is asked about. -/
theorem run_readProperty (operation : node.operation = .readProperty result base property)
    (held : m.state.registers.get? base = some v) (asked : v.hostLabels ≠ [])
    (named : m.state.contents.key? property = .ok (some (.name name))) :
    ((Dispatcher.base.withLayer layer).dispatch setting node).run.run m = (do
      let u ← v.hostLabels.foldlM (askLabel setting node name) .none
      let u ← joinOrdinaryPart Dispatcher.fallback setting node base result u
      writeResult? node result u
      return .pending : Transfer ClassTable Handover).run.run m := by
  have parts := v.map_label_hostParts
  have someAsked : (v.hostParts.filter fun part => !part.isRoot).isEmpty = false := by
    rw [← parts] at asked
    simpa using asked
  have someHosted : v.hostParts.isEmpty = false := by
    refine Bool.eq_false_iff.mpr fun empty => ?_
    rw [List.isEmpty_iff.mp empty] at someAsked
    cases someAsked
  have key : (propertyKey? property).run.run m = (.ok (some (.name name)), m) := by
    rw [← named]
    exact Reads.propertyKey? m property
  have dispatched : (Dispatcher.base.withLayer layer).dispatch setting node =
      readProperty Dispatcher.fallback setting node := by
    unfold Dispatcher.dispatch
    rw [kind_of_read operation, Dispatcher.effective_layered]
  rw [dispatched]
  unfold readProperty
  rw [operation]
  dsimp only
  rw [run_bind_of_ok _ (run_readRegister.mpr ⟨held, rfl⟩), if_neg (by simp [someHosted]),
    if_neg (by simp [someAsked]), run_bind_of_ok _ key]
  show (askProperties setting node name _ >>= _).run.run m = _
  rw [askProperties_eq, parts]

/-- With an answer for each label, the read succeeds. -/
theorem combines_of_answers (host : setting.host = ClassTable.host)
    (operation : node.operation = .readProperty result base property)
    (held : m.state.registers.get? base = some v) (asked : v.hostLabels ≠ [])
    (named : m.state.contents.key? property = .ok (some (.name name)))
    {answers : List (String × Value)}
    (answered : m.host.fieldAnswers? name v.hostLabels = some answers) :
    ∃ m', ((Dispatcher.base.withLayer layer).dispatch setting node).run.run m = (.ok .pending, m') ∧
      Combines setting node result base v name answers m m' := by
  obtain ⟨m₁, ran, state, remembered⟩ := run_askLabels node host answered .none
  have heldStill : m₁.state.registers.get? base = some v := by
    rw [state]
    exact held
  have narrowed := key?_withRegister held asked named v.notForeign
  have narrowedStill : (m₁.withRegister base v.notForeign).state.contents.key? property =
      .ok (some (.name name)) := by
    unfold Machine.withRegister
    rw [state]
    exact narrowed
  obtain ⟨m₂, joined, host₂, frame₂⟩ := run_joinOrdinaryPart_read setting operation heldStill
    narrowedStill (joinAnswers answers)
  obtain ⟨m', written, host₃, frame₃, holds⟩ := writesOnly_writeResult? m₂ node result
    (if v.notForeign.isNone then joinAnswers answers
      else result.elim (joinAnswers answers) fun _ =>
        (joinAnswers answers).join
          (m₁.state.contents.readThrough v.notForeign (some (.name name))))
  refine ⟨m', ?_, ?_, ((Machine.WritesOnly.of_state state).trans frame₂).trans frame₃,
    fun r same => ⟨_, holds r same, fun hosted => if_pos hosted, fun mixed => ?_⟩⟩
  · rw [run_readProperty operation held asked named, run_bind_of_ok _ ran]
    exact (run_bind_of_ok _ joined).trans (run_bind_of_ok _ written)
  · rw [host₃, host₂, remembered]
  · obtain ⟨m₃, fell, _, _, registers⟩ := run_fallback_read setting operation
      (FinMap.get?_insert_self _ _ _) narrowed
    refine ⟨m₃, _, fell, (registers r).trans (if_pos same), ?_⟩
    rw [if_neg (by simp [mixed]), same, state]
    rfl

/-- A read of a property, of a value that may be a class or an instance of the host, asks the host
    once for each such label and in their order. The result is the join of the answers, with what
    the ordinary rule writes for the rest of the value, and nothing else is written. Where an answer
    is missing, the read fails and leaves the state as it was. -/
theorem readProperty_combines (host : setting.host = ClassTable.host)
    (operation : node.operation = .readProperty result base property)
    (held : m.state.registers.get? base = some v) (asked : v.hostLabels ≠ [])
    (named : m.state.contents.key? property = .ok (some (.name name))) :
    (∀ handover m', ((Dispatcher.base.withLayer layer).dispatch setting node).run.run m =
        (.ok handover, m') →
      handover = .pending ∧ ∃ answers, m.host.fieldAnswers? name v.hostLabels = some answers ∧
        Combines setting node result base v name answers m m') ∧
    (∀ e m', ((Dispatcher.base.withLayer layer).dispatch setting node).run.run m =
        (.error e, m') →
      m.host.fieldAnswers? name v.hostLabels = none ∧ m'.state = m.state) := by
  cases known : m.host.fieldAnswers? name v.hostLabels with
  | none =>
      obtain ⟨e, m₁, failed, state⟩ := run_askLabels_of_none node host known .none
      rw [run_readProperty operation held asked named, run_bind_of_error _ failed]
      constructor
      · intro handover m' done
        cases done
      · intro e' m' done
        cases done
        exact ⟨rfl, state⟩
  | some answers =>
      obtain ⟨m₁, succeeded, combines⟩ := combines_of_answers host operation held asked named known
      rw [succeeded]
      constructor
      · intro handover m' done
        cases done
        exact ⟨rfl, answers, rfl, combines⟩
      · intro e m' done
        cases done

end Reads

/-! ### A read of three parts -/

/-- The classes `A` and `B`, each with a field of the same name. -/
def fieldClasses : ClassTable :=
  (ClassTable.empty.addClass { name := "A", fields := FinMap.insert ∅ "f" .anyNumber }).addClass
    { name := "B", fields := FinMap.insert ∅ "f" .anyString }

/-- A program without blocks, and class tables as the host. -/
def tableSetting : Setting ClassTable := ⟨ClassTable.host, .initial, {}⟩

/-- A read into the register that it reads from. -/
def readBack : Node := ⟨3, 0, .readProperty (some 0) 0 (.fixed "f")⟩

/-- A value that may be an instance of `A`, the class `B` or the global object. -/
def threeParts : Value :=
  .objects (.ofList [.global, ⟨2, .foreignType, some "B"⟩, ⟨1, .foreignObject, some "A"⟩])

/-- A machine with a value in the first register. -/
def withFields (v : Value) : Machine ClassTable where
  interner := .initial
  host := fieldClasses
  events := []
  state := (State.initial .initial 0 .main false).1.writeRegister 0 v
  pushes := []

/-- The three parts are joined: a number, a string, and undefined from the global object, which has
    no such property. -/
theorem threeParts_combined : ∃ m', ((Dispatcher.base.withLayer layer).dispatch tableSetting
      readBack).run.run (withFields threeParts) = (.ok .pending, m') ∧
    m'.host.queries = [.propertyValue "A" "f", .propertyValue "B" "f"] ∧
    m'.state.heap = (withFields threeParts).state.heap ∧
    m'.state.registers.get? 0 =
      some (((Value.none.join .anyNumber).join .anyString).join .undefined) := by
  have host : tableSetting.host = ClassTable.host := rfl
  have operation : readBack.operation = .readProperty (some 0) 0 (.fixed "f") := rfl
  have held : (withFields threeParts).state.registers.get? 0 = some threeParts := rfl
  have named : (withFields threeParts).state.contents.key? (.fixed "f") =
      .ok (some (.name "f")) := rfl
  have known : (withFields threeParts).host.fieldAnswers? "f" threeParts.hostLabels =
      some [("A", .anyNumber), ("B", .anyString)] := rfl
  have ordinary : ((Dispatcher.fallback tableSetting readBack).run.run
      ((withFields threeParts).withRegister 0 threeParts.notForeign)).2.state.registers.get? 0 =
        some .undefined := rfl
  obtain ⟨succeeds, fails⟩ := readProperty_combines host operation held (by decide) named
  rcases ran : ((Dispatcher.base.withLayer layer).dispatch tableSetting readBack).run.run
    (withFields threeParts) with ⟨e | handover, m'⟩
  · have missing := (fails e m' ran).1
    rw [known] at missing
    cases missing
  · obtain ⟨rfl, answers, found, combines⟩ := succeeds handover m' ran
    rw [known] at found
    cases found
    obtain ⟨u, holds, _, joined⟩ := combines.value 0 rfl
    obtain ⟨m₁, w, fell, reads, rfl⟩ := joined rfl
    rw [fell, reads] at ordinary
    cases ordinary
    exact ⟨m', rfl, by rw [combines.host]; rfl, combines.frame.heap, holds⟩

end Foreign

end ScriptHeap
