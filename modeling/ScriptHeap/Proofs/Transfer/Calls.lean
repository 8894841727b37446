import ScriptHeap.Proofs.Host.ClassTable
import ScriptHeap.Proofs.Transfer.Foreign

/-!
# What a call writes

A call on a value that may belong to the host is answered by the host, by the ordinary rule, or by
both. This module says what such a call writes to its result, for hosts that are class tables:
`Foreign.outcome?` gives the value from the registers and the table, and `Foreign.call_succeeds` and
`Foreign.outcome_of_call` tie it to the rule.
-/

namespace ScriptHeap

open Fallible

/-! ### Reading registers -/

namespace Transfer

variable {σ α : Type} {m m' : Machine σ}

theorem run_readRegister {r : Register} {v : Value} :
    (readRegister r).run.run m = (.ok v, m') ↔ m.state.registers.get? r = some v ∧ m' = m := by
  have ran : (readRegister r).run.run m = (m.state.readRegister r, m) := rfl
  rw [ran]
  unfold State.readRegister
  cases m.state.registers.get? r with
  | none => exact ⟨nofun, fun found => nomatch found.1⟩
  | some u =>
      constructor
      · intro done
        cases done
        exact ⟨rfl, rfl⟩
      · rintro ⟨found, rfl⟩
        cases found
        rfl

theorem run_attempt {x : Transfer σ α} {r : Except Error α} (ran : x.run.run m = (r, m')) :
    (attempt x).run.run m = (.ok r, m') := by
  show (Except.ok (x.run.run m).1, (x.run.run m).2) = _
  rw [ran]

end Transfer

/-- The registers are all defined. -/
def State.Readable (s : State) (rs : List Register) : Prop :=
  ∀ r ∈ rs, (s.registers.get? r).isSome = true

namespace Transfer

variable {σ α : Type} {m m' : Machine σ}

theorem of_readRegisters {rs : List Register} {vs : List Value}
    (done : (readRegisters rs).run.run m = (.ok vs, m')) : m.state.Readable rs ∧ m' = m := by
  unfold readRegisters at done
  induction rs generalizing vs with
  | nil =>
      cases done
      exact ⟨nofun, rfl⟩
  | cons r rest ih =>
      rw [List.mapM_cons] at done
      obtain ⟨v, m₁, first, others⟩ := of_run_bind done
      obtain ⟨found, rfl⟩ := run_readRegister.mp first
      obtain ⟨ws, m₂, later, returned⟩ := of_run_bind others
      cases returned
      obtain ⟨readable, rfl⟩ := ih later
      refine ⟨fun other member => ?_, rfl⟩
      rcases List.mem_cons.mp member with rfl | member
      · rw [found]
        rfl
      · exact readable other member

theorem run_readRegisters {rs : List Register} (readable : m.state.Readable rs) :
    ∃ vs, (readRegisters rs).run.run m = (.ok vs, m) := by
  unfold readRegisters
  induction rs with
  | nil => exact ⟨[], rfl⟩
  | cons r rest ih =>
      obtain ⟨v, found⟩ := Option.isSome_iff_exists.mp (readable r List.mem_cons_self)
      obtain ⟨vs, later⟩ := ih fun other member => readable other (List.mem_cons_of_mem _ member)
      refine ⟨v :: vs, ?_⟩
      rw [List.mapM_cons, run_bind_of_ok _ (run_readRegister.mpr ⟨found, rfl⟩),
        run_bind_of_ok _ later]
      rfl

/-- A register holds a value that a node has written. -/
structure Wrote (m : Machine σ) (node : Node) (r : Register) (v : Value) : Prop where
  value : m.state.registers.get? r = some v
  definition : m.state.mustDefs.get? r = some node.index

theorem wrote_writeResult (m : Machine σ) (node : Node) (r : Register) (v : Value) :
    ∃ m', (writeResult? node (some r) v).run.run m = (.ok (), m') ∧ Wrote m' node r v :=
  ⟨_, rfl, FinMap.get?_insert_self _ _ _, FinMap.get?_insert_self _ _ _⟩

/-- Pushing the state on leaves what was written. -/
theorem Wrote.pushOn {setting : Setting σ} {node : Node} {r : Register} {v : Value}
    (wrote : Wrote m node r v) {successor : Nat}
    (next : setting.program.singleSuccessor node.block = .ok successor) :
    ∃ m', (Transfer.pushOn setting node).run.run m = (.ok (), m') ∧ Wrote m' node r v := by
  unfold Transfer.pushOn
  rw [next]
  exact ⟨_, rfl, wrote.value, wrote.definition⟩

end Transfer

/-! ### The ordinary part -/

namespace Foreign

open Transfer

variable {σ : Type} {setting : Setting σ} {node : Node} {operands : CallOperands} {m : Machine σ}
  {q base : Register} {whole v : Value}

/-- The value that the ordinary rule for calls writes. -/
def ordinaryResult (node : Node) (operands : CallOperands) : Value :=
  if operands.constructor then .object ⟨node.index, .object, none⟩ else .anyPrimitive

/-- A value, with that of the ordinary rule joined to it if the receiver has an ordinary part. -/
def withOrdinary (node : Node) (operands : CallOperands) (receiver v : Value) : Value :=
  if receiver.notForeign.isNone then v else v.join (ordinaryResult node operands)

theorem fallback_call (operation : node.operation = .call operands) :
    (Dispatcher.fallback setting node : Transfer σ Handover) = (do
      let _ ← readRegisters operands.arguments
      let v ← if operands.constructor then Ordinary.makeObject node else pure .anyPrimitive
      writeResult? node operands.result v
      return .pending) := by
  have kind : node.kind = .call := by
    show node.operation.kind = _
    rw [operation]
    rfl
  show Ordinary.rule node.kind setting node = _
  rw [kind]
  show Ordinary.call setting node = _
  unfold Ordinary.call
  rw [operation]

theorem readable_of_fallback (operation : node.operation = .call operands) {handover : Handover}
    {m' : Machine σ} (done : (Dispatcher.fallback setting node).run.run m = (.ok handover, m')) :
    m.state.Readable operands.arguments := by
  rw [fallback_call operation] at done
  obtain ⟨_, _, first, _⟩ := of_run_bind done
  exact (of_readRegisters first).1

theorem run_fallback (operation : node.operation = .call operands)
    (result : operands.result = some q) (readable : m.state.Readable operands.arguments) :
    ∃ m', (Dispatcher.fallback setting node).run.run m = (.ok .pending, m') ∧
      Wrote m' node q (ordinaryResult node operands) := by
  obtain ⟨vs, first⟩ := run_readRegisters readable
  rw [fallback_call operation, run_bind_of_ok _ first, result]
  unfold ordinaryResult
  cases operands.constructor with
  | true => exact ⟨_, rfl, FinMap.get?_insert_self _ _ _, FinMap.get?_insert_self _ _ _⟩
  | false => exact ⟨_, rfl, FinMap.get?_insert_self _ _ _, FinMap.get?_insert_self _ _ _⟩

theorem readable_writeRegister {s : State} {rs : List Register} (readable : s.Readable rs)
    (r : Register) (v : Value) : (s.writeRegister r v).Readable rs := by
  intro other member
  show ((s.registers.insert r v).get? other).isSome = true
  rw [FinMap.get?_insert]
  split
  · rfl
  · exact readable other member

theorem run_ordinaryPart (operation : node.operation = .call operands)
    (result : operands.result = some q) (held : m.state.registers.get? base = some whole)
    (readable : m.state.Readable operands.arguments) (ordinary : Value) :
    ∃ m', (ordinaryPart Dispatcher.fallback setting node base ordinary (some q)).run.run m =
      (.ok (some (ordinaryResult node operands)), m') ∧
      Wrote m' node q (ordinaryResult node operands) := by
  have narrowed : (modifyState fun s => s.writeRegister base ordinary).run.run m =
      (.ok (), { m with state := m.state.writeRegister base ordinary }) := rfl
  obtain ⟨m', ran, wrote⟩ : ∃ m', (Dispatcher.fallback setting node).run.run
      { m with state := m.state.writeRegister base ordinary } = (.ok .pending, m') ∧
      Wrote m' node q (ordinaryResult node operands) :=
    run_fallback operation result (readable_writeRegister readable base ordinary)
  unfold ordinaryPart
  rw [run_bind_of_ok _ (run_readRegister.mpr ⟨held, rfl⟩), run_bind_of_ok _ narrowed,
    run_bind_of_ok _ (run_attempt ran)]
  by_cases same : q = base
  · rw [if_neg (by simp [same])]
    refine ⟨m', ?_, wrote⟩
    rw [← wrote.value]
    rfl
  · -- The value of the base is put back, which leaves the result alone.
    rw [if_pos (by simpa using same)]
    have kept : (m'.state.registers.insert base whole).get? q =
        some (ordinaryResult node operands) := by
      rw [FinMap.get?_insert_of_ne _ same, wrote.value]
    refine ⟨{ m' with state := m'.state.writeRegister base whole }, ?_, kept, wrote.definition⟩
    rw [← kept]
    rfl

theorem run_joinOrdinaryPart (operation : node.operation = .call operands)
    (result : operands.result = some q) (held : m.state.registers.get? base = some whole)
    (readable : m.state.Readable operands.arguments) (v : Value) :
    ∃ m', (joinOrdinaryPart Dispatcher.fallback setting node base (some q) v).run.run m =
      (.ok (withOrdinary node operands whole v), m') := by
  unfold joinOrdinaryPart withOrdinary
  rw [run_bind_of_ok _ (run_readRegister.mpr ⟨held, rfl⟩)]
  dsimp only
  split
  · exact ⟨m, rfl⟩
  · obtain ⟨m', ran, _⟩ := run_ordinaryPart operation result held readable whole.notForeign
    exact ⟨m', by rw [run_bind_of_ok _ ran]; rfl⟩

/-- A call that the host has answered succeeds if there is one block to go on with. -/
theorem run_finishCall (operation : node.operation = .call operands)
    (result : operands.result = some q) (held : m.state.registers.get? base = some whole)
    (readable : m.state.Readable operands.arguments) (v : Value) {successor : Nat}
    (next : setting.program.singleSuccessor node.block = .ok successor) :
    ∃ m', (finishCall Dispatcher.fallback setting node base (some q) v).run.run m =
      (.ok .done, m') ∧ Wrote m' node q (withOrdinary node operands whole v) := by
  obtain ⟨m₁, joined⟩ := run_joinOrdinaryPart operation result held readable v
  obtain ⟨m₂, written, wrote⟩ := wrote_writeResult m₁ node q (withOrdinary node operands whole v)
  unfold finishCall
  obtain ⟨m₃, pushed, wrote⟩ := wrote.pushOn next
  rw [run_bind_of_ok _ joined, run_bind_of_ok _ written, run_bind_of_ok _ pushed]
  exact ⟨m₃, rfl, wrote⟩

theorem successor_of_finishCall {result : Option Register} {handover : Handover} {m' : Machine σ}
    (done : (finishCall Dispatcher.fallback setting node base result v).run.run m =
      (.ok handover, m')) :
    ∃ successor, setting.program.singleSuccessor node.block = .ok successor := by
  obtain ⟨_, _, _, rest⟩ := of_run_bind done
  obtain ⟨_, _, _, rest⟩ := of_run_bind rest
  obtain ⟨_, _, pushed, _⟩ := of_run_bind rest
  obtain ⟨successor, _, known, _⟩ := of_run_bind pushed
  exact ⟨successor, congrArg Prod.fst known⟩

/-! ### Answers of a class table -/

/-- What a table answers for a method, over all classes of the receiver. -/
def methodAnswer? (table : ClassTable) (receiver : Value) (name : String) : Option Value :=
  match (receiver.hostParts.filter fun part => !part.isRoot).filterMap Value.HostPart.className with
  | [] => none
  | classes => classes.foldlM (fun v c => (table.member? HostClass.methods c name).map v.join) .none

theorem run_callAll {table h : ClassTable} (same : h.classes = table.classes) (name : String)
    (arguments : List Value) (classes : List String) (start : Value) (u : Value) :
    (∃ h', (classes.foldlM (fun v c => return v.join (← ClassTable.callOne name arguments c))
      start : HostCall ClassTable Value).run.run h = (.ok u, h')) ↔
    classes.foldlM (fun v c => (table.member? HostClass.methods c name).map v.join) start =
      some u := by
  induction classes generalizing h start with
  | nil =>
      constructor
      · rintro ⟨h', done⟩
        cases done
        rfl
      · intro done
        cases done
        exact ⟨h, rfl⟩
  | cons c rest ih =>
      have members : h.member? HostClass.methods c name =
          table.member? HostClass.methods c name := by
        unfold ClassTable.member?
        rw [same]
      rw [List.foldlM_cons, List.foldlM_cons]
      constructor
      · rintro ⟨h', done⟩
        obtain ⟨v, h₁, first, later⟩ := of_run_bind done
        obtain ⟨w, h₂, asked, returned⟩ := of_run_bind first
        cases returned
        obtain ⟨found, rfl⟩ := (ClassTable.run_askMember HostClass.methods _ "method").mp asked
        rw [← members, found]
        exact (ih (h := h.asked _) same _).mp ⟨h', later⟩
      · intro done
        obtain ⟨v, first, later⟩ := Option.bind_eq_some_iff.mp done
        obtain ⟨w, found, rfl⟩ := Option.map_eq_some_iff.mp first
        have asked : (ClassTable.callOne name arguments c).run.run h =
            (.ok w, h.asked (.call c name arguments)) :=
          (ClassTable.run_askMember HostClass.methods _ "method").mpr ⟨members.trans found, rfl⟩
        obtain ⟨h', ran⟩ := (ih (h := h.asked (.call c name arguments)) same _).mpr later
        refine ⟨h', ?_⟩
        have step : (do return start.join (← ClassTable.callOne name arguments c) :
            HostCall ClassTable Value).run.run h =
            (.ok (start.join w), h.asked (.call c name arguments)) := by
          rw [run_bind_of_ok _ asked]
          rfl
        rw [run_bind_of_ok _ step]
        exact ran

/-- The answer to a method call is the join over the classes of the receiver. -/
theorem run_call_iff {h : ClassTable} {receiver u : Value} {name : String}
    {arguments : List Value} :
    (∃ h', (ClassTable.call receiver name arguments).run.run h = (.ok u, h')) ↔
      methodAnswer? h receiver name = some u := by
  unfold ClassTable.call ClassTable.receiverClasses methodAnswer?
  generalize List.filterMap Value.HostPart.className _ = classes
  cases classes with
  | nil =>
      constructor
      · rintro ⟨h', done⟩
        cases done
      · nofun
  | cons c rest => exact run_callAll rfl name arguments (c :: rest) .none u

/-! ### Outcomes -/

/-- Who answers a call. -/
inductive Answer where
  /-- The ordinary rule. -/
  | ordinary
  /-- The host, with a value. -/
  | host (v : Value)
  /-- The host, with a value that may say that there is no result. -/
  | method (v : Value)

/-- The register that a call dispatches on: the function of a constructor call, and the base of a
    method call. -/
def receiver? (operands : CallOperands) : Option Register :=
  if operands.constructor then operands.function
  else if operands.property.isSome then operands.base else none

/-- A method call has a name. -/
theorem property_of_receiver (constructor : operands.constructor = false) {r : Register}
    (receiver : receiver? operands = some r) : ∃ name, operands.property = some name := by
  unfold receiver? at receiver
  rw [if_neg (by simp [constructor])] at receiver
  cases property : operands.property with
  | none => simp [property] at receiver
  | some name => exact ⟨name, rfl⟩

/-- The class that a call of the type constructor gives. -/
def typeToken (node : Node) (className : String) : Value :=
  (Value.object ⟨node.index, .foreignType, some className⟩).setDontDelete.setDontEnum.setReadOnly

/-- The answer to a call on a receiver, unless the call fails. The first host label decides. -/
def answer? (setting : Setting ClassTable) (node : Node) (operands : CallOperands)
    (m : Machine ClassTable) (receiver : Value) : Option Answer :=
  if operands.constructor then
    match receiver.hostParts.head? with
    | some (.type label) => do
      let c ← label.className
      let description ← m.host.classes.get? c
      if description.constructible then some (.host (.object ⟨node.index, .foreignObject, some c⟩))
      else none
    | _ => some .ordinary
  else
    match receiver.hostParts.head?, operands.property with
    | some (.root _), some name =>
      if name ≠ setting.options.typeConstructorName then some .ordinary
      else
        match operands.arguments with
        | [r] => do
          let v ← m.state.registers.get? r
          let c ← v.exactString?
          some (.host (typeToken node c))
        | _ => some .ordinary
    | some (.object label), some name => do
      let _ ← label.className
      return .method (← methodAnswer? m.host receiver name)
    | some (.type label), some name => do
      let c ← label.className
      return .host (← m.host.member? HostClass.statics c name)
    | _, _ => some .ordinary

/-- The instance that a constructor call makes. -/
def instanceOf (node : Node) (className : String) : Value :=
  .object ⟨node.index, .foreignObject, some className⟩

section Answers

variable {setting : Setting ClassTable} {m : Machine ClassTable} {answer : Answer} {label : Label}

/-- A class is constructed by the host. -/
theorem answer_construct (constructor : operands.constructor = true)
    (head : whole.hostParts.head? = some (.type label)) :
    answer? setting node operands m whole = some answer ↔ ∃ c description,
      label.className = some c ∧ m.host.classes.get? c = some description ∧
      description.constructible = true ∧ answer = .host (instanceOf node c) := by
  simp only [answer?, constructor, if_true, head]
  constructor
  · intro answered
    obtain ⟨c, known, rest⟩ := Option.bind_eq_some_iff.mp answered
    obtain ⟨description, found, rest⟩ := Option.bind_eq_some_iff.mp rest
    split at rest
    · cases rest
      exact ⟨c, description, known, found, ‹_›, rfl⟩
    · cases rest
  · rintro ⟨c, description, known, found, constructible, rfl⟩
    refine Option.bind_eq_some_iff.mpr ⟨c, known, ?_⟩
    refine Option.bind_eq_some_iff.mpr ⟨description, found, ?_⟩
    rw [if_pos constructible]
    rfl

/-- Anything else is constructed by the ordinary rule. -/
theorem answer_construct_ordinary (constructor : operands.constructor = true)
    (head : ∀ label, whole.hostParts.head? ≠ some (.type label)) :
    answer? setting node operands m whole = some .ordinary := by
  simp only [answer?, constructor, if_true]

variable {name : String}

/-- Methods are asked for all classes of the receiver. -/
theorem answer_method (constructor : operands.constructor = false)
    (property : operands.property = some name)
    (head : whole.hostParts.head? = some (.object label)) :
    answer? setting node operands m whole = some answer ↔ ∃ c u, label.className = some c ∧
      methodAnswer? m.host whole name = some u ∧ answer = .method u := by
  simp only [answer?, constructor, head, property, Bool.false_eq_true, if_false]
  constructor
  · intro answered
    obtain ⟨c, known, rest⟩ := Option.bind_eq_some_iff.mp answered
    obtain ⟨u, given, rest⟩ := Option.bind_eq_some_iff.mp rest
    cases rest
    exact ⟨c, u, known, given, rfl⟩
  · rintro ⟨c, u, known, given, rfl⟩
    refine Option.bind_eq_some_iff.mpr ⟨c, known, ?_⟩
    exact Option.bind_eq_some_iff.mpr ⟨u, given, rfl⟩

/-- Static methods are asked for the class of the first label. -/
theorem answer_static (constructor : operands.constructor = false)
    (property : operands.property = some name) (head : whole.hostParts.head? = some (.type label)) :
    answer? setting node operands m whole = some answer ↔ ∃ c u, label.className = some c ∧
      m.host.member? HostClass.statics c name = some u ∧ answer = .host u := by
  simp only [answer?, constructor, head, property, Bool.false_eq_true, if_false]
  constructor
  · intro answered
    obtain ⟨c, known, rest⟩ := Option.bind_eq_some_iff.mp answered
    obtain ⟨u, given, rest⟩ := Option.bind_eq_some_iff.mp rest
    cases rest
    exact ⟨c, u, known, given, rfl⟩
  · rintro ⟨c, u, known, given, rfl⟩
    refine Option.bind_eq_some_iff.mpr ⟨c, known, ?_⟩
    exact Option.bind_eq_some_iff.mpr ⟨u, given, rfl⟩

/-- The root answers by itself, whatever the table. -/
theorem answer_root (constructor : operands.constructor = false)
    (property : operands.property = some name) (head : whole.hostParts.head? = some (.root label))
    (answered : answer? setting node operands m whole = some answer) :
    (answer = .ordinary ∨ ∃ c, answer = .host (typeToken node c)) ∧
      ∀ table, answer? setting node operands { m with host := table } whole = some answer := by
  simp only [answer?, constructor, head, property, Bool.false_eq_true, if_false] at answered ⊢
  refine ⟨?_, fun _ => answered⟩
  split at answered
  · cases answered
    exact .inl rfl
  · split at answered
    · obtain ⟨_, _, rest⟩ := Option.bind_eq_some_iff.mp answered
      obtain ⟨c, _, rest⟩ := Option.bind_eq_some_iff.mp rest
      cases rest
      exact .inr ⟨c, rfl⟩
    · cases answered
      exact .inl rfl

theorem answer_none (constructor : operands.constructor = false)
    (head : whole.hostParts.head? = none) :
    answer? setting node operands m whole = some .ordinary := by
  simp only [answer?, constructor, head, Bool.false_eq_true, if_false]

end Answers

/-- What is written after an answer, where the call succeeds. A method without a result writes
    nothing by itself. -/
def finish? (setting : Setting ClassTable) (node : Node) (operands : CallOperands)
    (receiver : Value) : Answer → Option (Option Value)
  | .ordinary => some (some (ordinaryResult node operands))
  | .host v => finished v
  | .method v =>
    if isNoResult v then
      some (if receiver.notForeign.isNone then none else some (ordinaryResult node operands))
    else finished v
where
  finished (v : Value) : Option (Option Value) :=
    match setting.program.singleSuccessor node.block with
    | .ok _ => some (some (withOrdinary node operands receiver v))
    | .error _ => none

/-- What a call writes, where it succeeds. -/
def outcome? (setting : Setting ClassTable) (node : Node) (operands : CallOperands)
    (m : Machine ClassTable) (receiver : Value) : Option (Option Value) :=
  if operands.arguments.all fun r => (m.state.registers.get? r).isSome then
    (answer? setting node operands m receiver).bind (finish? setting node operands receiver)
  else none

/-- What a call has left behind when it is over. -/
def Leaves (m : Machine σ) (node : Node) (q : Register) (m' : Machine σ) : Option Value → Prop
  | some v => Wrote m' node q v
  | none => m'.state = m.state

section Asking

variable {α : Type} {m' : Machine σ}

theorem of_ask {call : HostCall σ α} {a : α} (done : (ask call).run.run m = (.ok a, m')) :
    (∃ h', call.run.run m.host = (.ok a, h')) ∧ m'.state = m.state := by
  have ran : (ask call).run.run m =
      ((call.run.run m.host).1, { m with host := (call.run.run m.host).2 }) := rfl
  rw [ran] at done
  obtain ⟨answered, rfl⟩ := Prod.mk.inj done
  exact ⟨⟨_, Prod.ext answered rfl⟩, rfl⟩

theorem run_ask {call : HostCall σ α} {a : α} {h' : σ}
    (answered : call.run.run m.host = (.ok a, h')) :
    (ask call).run.run m = (.ok a, { m with host := h' }) := by
  show ((call.run.run m.host).1, { m with host := (call.run.run m.host).2 }) = _
  rw [answered]

theorem of_askValue {call : HostCall σ Value} (done : (askValue call).run.run m = (.ok v, m')) :
    (∃ h', call.run.run m.host = (.ok v, h')) ∧ m'.state = m.state := by
  obtain ⟨u, m₁, asked, rest⟩ := of_run_bind done
  obtain ⟨answered, same⟩ := of_ask asked
  rw [run_internValue] at rest
  cases rest
  exact ⟨answered, same⟩

theorem run_askValue {call : HostCall σ Value} {h' : σ}
    (answered : call.run.run m.host = (.ok v, h')) :
    ∃ m', (askValue call).run.run m = (.ok v, m') ∧ m'.state = m.state := by
  refine ⟨{ m with interner := m.interner.addValue v, host := h' }, ?_, rfl⟩
  unfold askValue
  rw [run_bind_of_ok _ (run_ask answered), run_internValue]

theorem of_className {label : Label} {c : String}
    (done : (className label).run.run m = (.ok c, m')) :
    label.className = some c ∧ m' = m := by
  unfold className at done
  split at done
  · cases done
    exact ⟨‹_›, rfl⟩
  · cases done

theorem run_className {label : Label} {c : String} (known : label.className = some c) :
    (className label).run.run m = (.ok c, m) := by
  unfold className
  rw [known]
  rfl

end Asking

section Hosted

variable {label : Label}

/-- The part that constructor calls and calls of static methods have in common. -/
def askAndFinish (setting : Setting σ) (node : Node) (operands : CallOperands) (base : Register)
    (label : Label) (event : String → Event) (question : String → HostCall σ Value) :
    Transfer σ Handover := do
  let c ← className label
  let _ ← readRegisters operands.arguments
  notify (event c)
  let v ← askValue (question c)
  finishCall Dispatcher.fallback setting node base operands.result v

theorem run_askAndFinish (event : String → Event) (question : String → HostCall σ Value)
    (operation : node.operation = .call operands)
    (result : operands.result = some q) (held : m.state.registers.get? base = some whole)
    (readable : m.state.Readable operands.arguments) {c : String} (known : label.className = some c)
    {h' : σ} (answered : (question c).run.run m.host = (.ok v, h')) {successor : Nat}
    (next : setting.program.singleSuccessor node.block = .ok successor) :
    ∃ m', (askAndFinish setting node operands base label event question).run.run m =
      (.ok .done, m') ∧ Wrote m' node q (withOrdinary node operands whole v) := by
  obtain ⟨vs, read⟩ := run_readRegisters readable
  have notified : (notify (event c)).run.run m =
      (.ok (), { m with events := m.events ++ [event c] }) := rfl
  obtain ⟨m₁, asked, same⟩ := run_askValue
    (m := { m with events := m.events ++ [event c] }) answered
  unfold askAndFinish
  rw [run_bind_of_ok _ (run_className known), run_bind_of_ok _ read, run_bind_of_ok _ notified,
    run_bind_of_ok _ asked, result]
  exact run_finishCall operation result (by rw [same]; exact held) (by rw [same]; exact readable) v
    next

theorem of_askAndFinish {event : String → Event} {question : String → HostCall σ Value}
    {handover : Handover} {m' : Machine σ}
    (done : (askAndFinish setting node operands base label event question).run.run m =
      (.ok handover, m')) :
    m.state.Readable operands.arguments ∧ (∃ c v h', label.className = some c ∧
      (question c).run.run m.host = (.ok v, h')) ∧
      ∃ successor, setting.program.singleSuccessor node.block = .ok successor := by
  obtain ⟨c, m₁, named, afterName⟩ := of_run_bind done
  obtain ⟨known, rfl⟩ := of_className named
  obtain ⟨_, m₂, read, afterRead⟩ := of_run_bind afterName
  obtain ⟨readable, rfl⟩ := of_readRegisters read
  obtain ⟨_, m₃, notified, afterEvent⟩ := of_run_bind afterRead
  cases notified
  obtain ⟨v, m₄, asked, finished⟩ := of_run_bind afterEvent
  obtain ⟨⟨h', answered⟩, _⟩ := of_askValue asked
  exact ⟨readable, ⟨c, v, h', known, answered⟩, successor_of_finishCall finished⟩

end Hosted

/-! ### The rule for calls -/

section Rule

variable {setting : Setting ClassTable} {m : Machine ClassTable}

theorem dispatch_call (operation : node.operation = .call operands) :
    (Dispatcher.base.withLayer layer).dispatch setting node =
      call Dispatcher.fallback setting node := by
  have kind : node.kind = .call := by
    show node.operation.kind = _
    rw [operation]
    rfl
  unfold Dispatcher.dispatch
  rw [kind, Dispatcher.effective_layered]

theorem call_construct (operation : node.operation = .call operands)
    (constructor : operands.constructor = true) {r : Register}
    (receiver : receiver? operands = some r) :
    call Dispatcher.fallback setting node = (do
      match (← readRegister r).hostParts.head? with
      | some (.type label) =>
        askAndFinish setting node operands r label (.hostQuery node.index · constructorMember)
          (setting.host.construct node.index)
      | _ => Dispatcher.fallback setting node) := by
  have function : operands.function = some r := by
    unfold receiver? at receiver
    rw [if_pos constructor] at receiver
    exact receiver
  unfold call
  rw [operation]
  dsimp only
  rw [if_pos constructor]
  unfold construct
  rw [function]
  rfl

theorem call_method (operation : node.operation = .call operands)
    (constructor : operands.constructor = false) {r : Register}
    (receiver : receiver? operands = some r) {name : String}
    (property : operands.property = some name) : call Dispatcher.fallback setting node = (do
      let baseValue ← readRegister r
      match baseValue.hostParts.head? with
      | none => Dispatcher.fallback setting node
      | some (.root _) => callRoot Dispatcher.fallback setting node operands r name
      | some (.object label) =>
        callObject Dispatcher.fallback setting node operands r baseValue name label
      | some (.type label) =>
        askAndFinish setting node operands r label (.hostQuery node.index · name)
          (setting.host.functionValue · name)) := by
  have base : operands.base = some r := by
    unfold receiver? at receiver
    rw [if_neg (by simp [constructor]), property] at receiver
    exact receiver
  unfold call
  rw [operation]
  dsimp only
  rw [if_neg (by simp [constructor]), base, property]
  rfl

theorem of_finished {receiver : Value} {o : Option Value}
    (finished : finish?.finished setting node operands receiver v = some o) :
    (∃ successor, setting.program.singleSuccessor node.block = .ok successor) ∧
      o = some (withOrdinary node operands receiver v) := by
  unfold finish?.finished at finished
  split at finished
  · cases finished
    exact ⟨⟨_, ‹_›⟩, rfl⟩
  · cases finished

theorem finished_eq {receiver : Value} {successor : Nat}
    (next : setting.program.singleSuccessor node.block = .ok successor) :
    finish?.finished setting node operands receiver v =
      some (some (withOrdinary node operands receiver v)) := by
  unfold finish?.finished
  rw [next]

theorem run_runOrdinaryPart (operation : node.operation = .call operands)
    (result : operands.result = some q) (held : m.state.registers.get? base = some whole)
    (readable : m.state.Readable operands.arguments) :
    ∃ m', (runOrdinaryPart Dispatcher.fallback setting node base whole (some q)).run.run m =
      (.ok (), m') ∧
      Leaves m node q m'
        (if whole.notForeign.isNone then none else some (ordinaryResult node operands)) := by
  unfold runOrdinaryPart
  cases whole.notForeign.isNone with
  | true => exact ⟨m, rfl, rfl⟩
  | false =>
      obtain ⟨m', ran, wrote⟩ := run_ordinaryPart operation result held readable whole.notForeign
      refine ⟨m', ?_, wrote⟩
      simp only [Bool.not_false, if_true]
      rw [run_bind_of_ok _ ran]
      rfl

/-- A call of a method of an instance, with the answer of the table. -/
theorem run_callObject (host : setting.host = ClassTable.host)
    (operation : node.operation = .call operands) (result : operands.result = some q)
    (held : m.state.registers.get? base = some whole)
    (readable : m.state.Readable operands.arguments) {name c : String} {label : Label}
    (known : label.className = some c) (answered : methodAnswer? m.host whole name = some v)
    {o : Option Value} (finished : finish? setting node operands whole (.method v) = some o) :
    ∃ handover m',
      (callObject Dispatcher.fallback setting node operands base whole name label).run.run m =
        (.ok handover, m') ∧ Leaves m node q m' o := by
  obtain ⟨vs, read⟩ := run_readRegisters readable
  have notified : (notify (.hostQuery node.index c name)).run.run m =
      (.ok (), { m with events := m.events ++ [.hostQuery node.index c name] }) := rfl
  obtain ⟨m₁, asked, same⟩ : ∃ m₁, (ask (setting.host.call whole name vs)).run.run
      { m with events := m.events ++ [.hostQuery node.index c name] } = (.ok v, m₁) ∧
      m₁.state = m.state := by
    obtain ⟨h', called⟩ := run_call_iff.mpr answered
    rw [host]
    exact ⟨_, run_ask called, rfl⟩
  have heldThen : m₁.state.registers.get? base = some whole := by rw [same, held]
  have readableThen : m₁.state.Readable operands.arguments := by rw [same]; exact readable
  unfold callObject
  rw [run_bind_of_ok _ (run_className known), run_bind_of_ok _ read, run_bind_of_ok _ notified,
    run_bind_of_ok _ asked, result]
  rw [finish?] at finished
  split
  · rename_i noResult
    rw [if_pos noResult] at finished
    cases finished
    obtain ⟨m', ran, leaves⟩ := run_runOrdinaryPart operation result heldThen readableThen
    refine ⟨.pending, m', by rw [run_bind_of_ok _ ran]; rfl, ?_⟩
    revert leaves
    cases whole.notForeign.isNone with
    | true => exact fun leaves => (leaves : m'.state = m₁.state).trans same
    | false => exact id
  · rename_i present
    rw [if_neg present] at finished
    obtain ⟨⟨successor, next⟩, rfl⟩ := of_finished finished
    rw [run_bind_of_ok _ (run_internValue v m₁)]
    obtain ⟨m', ran, wrote⟩ := run_finishCall operation result
      (m := { m₁ with interner := m₁.interner.addValue v }) heldThen readableThen v next
    exact ⟨.done, m', ran, wrote⟩

theorem of_callObject (host : setting.host = ClassTable.host) {name : String} {label : Label}
    {handover : Handover} {m' : Machine ClassTable}
    (done : (callObject Dispatcher.fallback setting node operands base whole name label).run.run m =
      (.ok handover, m')) :
    m.state.Readable operands.arguments ∧ ∃ c v o, label.className = some c ∧
      methodAnswer? m.host whole name = some v ∧
      finish? setting node operands whole (.method v) = some o := by
  obtain ⟨c, m₁, named, afterName⟩ := of_run_bind done
  obtain ⟨known, rfl⟩ := of_className named
  obtain ⟨vs, m₂, read, afterRead⟩ := of_run_bind afterName
  obtain ⟨readable, rfl⟩ := of_readRegisters read
  obtain ⟨_, m₃, notified, afterEvent⟩ := of_run_bind afterRead
  cases notified
  obtain ⟨v, m₄, asked, finished⟩ := of_run_bind afterEvent
  obtain ⟨⟨h', answered⟩, _⟩ := of_ask asked
  rw [host] at answered
  have answer : methodAnswer? m₂.host whole name = some v := run_call_iff.mp ⟨h', answered⟩
  refine ⟨readable, c, v, ?_⟩
  rw [finish?]
  split at finished
  · rename_i noResult
    exact ⟨_, known, answer, if_pos noResult⟩
  · rename_i present
    obtain ⟨_, _, _, rest⟩ := of_run_bind finished
    obtain ⟨successor, next⟩ := successor_of_finishCall rest
    exact ⟨_, known, answer, by rw [if_neg present, finished_eq next]⟩

/-- A call of a method of the root. -/
theorem run_ordinary (operation : node.operation = .call operands)
    (result : operands.result = some q) (readable : m.state.Readable operands.arguments)
    {answer : Answer} {o : Option Value}
    (finished : finish? setting node operands whole answer = some o) :
    answer = .ordinary → ∃ handover m',
      (Dispatcher.fallback setting node).run.run m = (.ok handover, m') ∧ Leaves m node q m' o := by
  rintro rfl
  cases finished
  obtain ⟨m', ran, wrote⟩ := run_fallback operation result readable
  exact ⟨.pending, m', ran, wrote⟩

theorem run_callRoot (operation : node.operation = .call operands)
    (result : operands.result = some q) (held : m.state.registers.get? base = some whole)
    (readable : m.state.Readable operands.arguments) {name : String} {label : Label}
    (constructor : operands.constructor = false) (property : operands.property = some name)
    (head : whole.hostParts.head? = some (.root label)) {answer : Answer}
    (answered : answer? setting node operands m whole = some answer) {o : Option Value}
    (finished : finish? setting node operands whole answer = some o) :
    ∃ handover m', (callRoot Dispatcher.fallback setting node operands base name).run.run m =
      (.ok handover, m') ∧ Leaves m node q m' o := by
  have ordinary := run_ordinary operation result readable finished
  simp only [answer?, constructor, head, property, Bool.false_eq_true, if_false] at answered
  unfold callRoot
  by_cases other : name ≠ setting.options.typeConstructorName
  · rw [if_pos other] at answered ⊢
    exact ordinary (Option.some.inj answered).symm
  · rw [if_neg other] at answered ⊢
    rcases arguments : operands.arguments with _ | ⟨r, _ | ⟨second, others⟩⟩
    case cons.nil =>
      simp only [arguments] at answered
      obtain ⟨u, known, rest⟩ := Option.bind_eq_some_iff.mp answered
      obtain ⟨c, constant, rest⟩ := Option.bind_eq_some_iff.mp rest
      cases rest
      obtain ⟨⟨successor, next⟩, rfl⟩ := of_finished finished
      dsimp only
      rw [run_bind_of_ok _ (run_readRegister.mpr ⟨known, rfl⟩), result]
      simp only [constant]
      obtain ⟨m₁, allocated, registers⟩ :
          ∃ m₁, (allocate ⟨node.index, .foreignType, some c⟩).run.run m = (.ok (), m₁) ∧
            m₁.state.registers = m.state.registers := ⟨_, rfl, rfl⟩
      have heldThen : m₁.state.registers.get? base = some whole := by rw [registers, held]
      have readableThen : m₁.state.Readable operands.arguments := by
        unfold State.Readable
        rw [registers]
        exact readable
      obtain ⟨m', ran, wrote⟩ :=
        run_finishCall operation result heldThen readableThen (typeToken node c) next
      exact ⟨.done, m', by rw [run_bind_of_ok _ allocated]; exact ran, wrote⟩
    all_goals
      simp only [arguments] at answered
      exact ordinary (Option.some.inj answered).symm

theorem of_callRoot (operation : node.operation = .call operands) {name : String} {label : Label}
    (constructor : operands.constructor = false) (property : operands.property = some name)
    (head : whole.hostParts.head? = some (.root label)) {handover : Handover}
    {m' : Machine ClassTable}
    (done : (callRoot Dispatcher.fallback setting node operands base name).run.run m =
      (.ok handover, m')) :
    m.state.Readable operands.arguments ∧ ∃ answer o,
      answer? setting node operands m whole = some answer ∧
      finish? setting node operands whole answer = some o := by
  simp only [answer?, constructor, head, property, Bool.false_eq_true, if_false]
  unfold callRoot at done
  by_cases other : name ≠ setting.options.typeConstructorName
  · rw [if_pos other] at done
    exact ⟨readable_of_fallback operation done, .ordinary, _, if_pos other, rfl⟩
  · rw [if_neg other] at done
    simp only [if_neg other]
    rcases arguments : operands.arguments with _ | ⟨r, _ | ⟨second, others⟩⟩
    case cons.nil =>
      simp only [arguments] at done
      obtain ⟨u, m₁, read, rest⟩ := of_run_bind done
      obtain ⟨known, rfl⟩ := run_readRegister.mp read
      cases constant : u.exactString? with
      | none =>
          simp only [constant] at rest
          cases rest
      | some c =>
          simp only [constant] at rest
          obtain ⟨_, _, _, finished⟩ := of_run_bind rest
          obtain ⟨successor, next⟩ := successor_of_finishCall finished
          have readable : m₁.state.Readable [r] := by
            intro other member
            rw [List.mem_singleton.mp member, known]
            rfl
          refine ⟨readable, .host (typeToken node c), _, ?_, finished_eq next⟩
          exact Option.bind_eq_some_iff.mpr
            ⟨u, known, Option.bind_eq_some_iff.mpr ⟨c, constant, rfl⟩⟩
    all_goals
      simp only [arguments] at done
      have readable := readable_of_fallback operation done
      rw [arguments] at readable
      exact ⟨readable, .ordinary, _, rfl, rfl⟩

theorem readable_iff {s : State} {rs : List Register} :
    (rs.all fun r => (s.registers.get? r).isSome) = true ↔ s.Readable rs :=
  List.all_eq_true

/-- A call with an outcome succeeds, and leaves the outcome behind. -/
theorem call_succeeds (host : setting.host = ClassTable.host)
    (operation : node.operation = .call operands) (result : operands.result = some q)
    {r : Register} (receiver : receiver? operands = some r)
    (held : m.state.registers.get? r = some whole) {o : Option Value}
    (outcome : outcome? setting node operands m whole = some o) :
    ∃ handover m', ((Dispatcher.base.withLayer layer).dispatch setting node).run.run m =
      (.ok handover, m') ∧ Leaves m node q m' o := by
  unfold outcome? at outcome
  split at outcome
  case isFalse => cases outcome
  rename_i allDefined
  have readable : m.state.Readable operands.arguments := readable_iff.mp allDefined
  obtain ⟨answer, answered, finished⟩ := Option.bind_eq_some_iff.mp outcome
  have read := run_readRegister.mpr ⟨held, (rfl : m = m)⟩
  have ordinary := run_ordinary operation result readable finished
  rw [dispatch_call operation]
  cases constructor : operands.constructor with
  | true =>
      rw [call_construct operation constructor receiver, run_bind_of_ok _ read]
      cases head : whole.hostParts.head? with
      | none =>
          rw [answer_construct_ordinary constructor (by simp [head])] at answered
          exact ordinary (Option.some.inj answered).symm
      | some part =>
          cases part with
          | root label | object label =>
              rw [answer_construct_ordinary constructor (by simp [head])] at answered
              exact ordinary (Option.some.inj answered).symm
          | type label =>
              obtain ⟨c, description, known, found, constructible, rfl⟩ :=
                (answer_construct constructor head).mp answered
              obtain ⟨⟨successor, next⟩, rfl⟩ := of_finished finished
              have asked := ClassTable.run_construct.mpr
                ⟨⟨description, found, constructible⟩, (rfl : instanceOf node c = _), rfl⟩
              rw [host]
              obtain ⟨m', ran, wrote⟩ := run_askAndFinish _ (ClassTable.host.construct node.index)
                operation result held readable known asked next
              exact ⟨.done, m', ran, wrote⟩
  | false =>
      obtain ⟨name, property⟩ := property_of_receiver constructor receiver
      rw [call_method operation constructor receiver property, run_bind_of_ok _ read]
      cases head : whole.hostParts.head? with
      | none =>
          rw [answer_none constructor head] at answered
          exact ordinary (Option.some.inj answered).symm
      | some part =>
          cases part with
          | root label =>
              exact run_callRoot operation result held readable constructor property head answered
                finished
          | object label =>
              obtain ⟨c, v, known, given, rfl⟩ :=
                (answer_method constructor property head).mp answered
              exact run_callObject host operation result held readable known given finished
          | type label =>
              obtain ⟨c, v, known, given, rfl⟩ :=
                (answer_static constructor property head).mp answered
              obtain ⟨⟨successor, next⟩, rfl⟩ := of_finished finished
              have asked : (ClassTable.functionValue c name).run.run m.host =
                  (.ok v, m.host.asked (.functionValue c name)) :=
                (ClassTable.run_askMember HostClass.statics _ "static method").mpr ⟨given, rfl⟩
              rw [host]
              obtain ⟨m', ran, wrote⟩ := run_askAndFinish _ (ClassTable.host.functionValue · name)
                operation result held readable known asked next
              exact ⟨.done, m', ran, wrote⟩

/-- A call that succeeds has an outcome. -/
theorem outcome_of_call (host : setting.host = ClassTable.host)
    (operation : node.operation = .call operands) {r : Register}
    (receiver : receiver? operands = some r) (held : m.state.registers.get? r = some whole)
    {handover : Handover} {m' : Machine ClassTable}
    (done : ((Dispatcher.base.withLayer layer).dispatch setting node).run.run m =
      (.ok handover, m')) :
    ∃ o, outcome? setting node operands m whole = some o := by
  suffices answers : m.state.Readable operands.arguments ∧ ∃ answer o,
      answer? setting node operands m whole = some answer ∧
      finish? setting node operands whole answer = some o by
    obtain ⟨readable, answer, o, answered, finished⟩ := answers
    refine ⟨o, ?_⟩
    unfold outcome?
    rw [if_pos (readable_iff.mpr readable), answered]
    exact finished
  rw [dispatch_call operation] at done
  have read := run_readRegister.mpr ⟨held, (rfl : m = m)⟩
  cases constructor : operands.constructor with
  | true =>
      rw [call_construct operation constructor receiver, run_bind_of_ok _ read] at done
      cases head : whole.hostParts.head? with
      | none =>
          simp only [head] at done
          exact ⟨readable_of_fallback operation done, .ordinary, _,
            answer_construct_ordinary constructor (by simp [head]), rfl⟩
      | some part =>
          cases part with
          | root label | object label =>
              simp only [head] at done
              exact ⟨readable_of_fallback operation done, .ordinary, _,
                answer_construct_ordinary constructor (by simp [head]), rfl⟩
          | type label =>
              simp only [head] at done
              obtain ⟨readable, ⟨c, v, h', known, asked⟩, successor, next⟩ := of_askAndFinish done
              rw [host] at asked
              obtain ⟨⟨description, found, constructible⟩, rfl, rfl⟩ :=
                ClassTable.run_construct.mp asked
              exact ⟨readable, .host (instanceOf node c), _, (answer_construct constructor head).mpr
                ⟨c, description, known, found, constructible, rfl⟩, finished_eq next⟩
  | false =>
      obtain ⟨name, property⟩ := property_of_receiver constructor receiver
      rw [call_method operation constructor receiver property, run_bind_of_ok _ read] at done
      cases head : whole.hostParts.head? with
      | none =>
          simp only [head] at done
          exact ⟨readable_of_fallback operation done, .ordinary, _, answer_none constructor head,
            rfl⟩
      | some part =>
          cases part with
          | root label =>
              simp only [head] at done
              exact of_callRoot operation constructor property head done
          | object label =>
              simp only [head] at done
              obtain ⟨readable, c, v, o, known, given, finished⟩ := of_callObject host done
              exact ⟨readable, .method v, o, (answer_method constructor property head).mpr
                ⟨c, v, known, given, rfl⟩, finished⟩
          | type label =>
              simp only [head] at done
              obtain ⟨readable, ⟨c, v, h', known, asked⟩, successor, next⟩ := of_askAndFinish done
              rw [host] at asked
              obtain ⟨given, rfl⟩ :=
                (ClassTable.run_askMember HostClass.statics _ "static method").mp asked
              exact ⟨readable, .host v, _, (answer_static constructor property head).mpr
                ⟨c, v, known, given, rfl⟩, finished_eq next⟩

end Rule

end Foreign

end ScriptHeap
