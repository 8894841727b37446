import ScriptHeap.Proofs.Transfer.Logic

/-!
# Invariants of the rules for host values

The rules for host values are walked through here, over any invariant of the machine. They are made
of writes of registers, new objects, weak writes, steps of the ordinary rules, questions to the host
and the push at the end of a call. An invariant that these keep (`Foreign.Parts`) is kept by all
rules (`Foreign.Parts.dispatch`).

Two things are known where a part comes up in a rule. The push is the last thing that a call does,
so another property may hold after it. And a property is written only on objects that are neither
classes of the host nor instances: the ordinary rule for writes runs where there are none among the
labels of the base, and otherwise only the ordinary objects are written.
-/

namespace ScriptHeap

open Fallible

/-! ### Host labels -/

/-- The label stands for a class of the host or for an instance of one. -/
def Label.IsHosted (label : Label) : Prop :=
  label.kind = .foreignType ∨ label.kind = .foreignObject

instance (label : Label) : Decidable label.IsHosted :=
  inferInstanceAs (Decidable (label.kind = .foreignType ∨ label.kind = .foreignObject))

namespace Value

/-- A value whose only host objects are roots has no label of a class or an instance. -/
theorem not_hosted_of_roots {v : Value}
    (roots : (v.hostParts.filter fun part => !part.isRoot).isEmpty = true) :
    ∀ label ∈ v.labels, ¬ label.IsHosted := by
  intro label member hosted
  have listed : label ∈ v.labels.toList := FinSet.mem_toList.mpr member
  have empty := List.filter_eq_nil_iff.mp (List.isEmpty_iff.mp roots)
  have among : ∀ part, HostPart.ofLabel? label = some part → part.isRoot = true := by
    intro part found
    simpa using empty part (List.mem_filterMap.mpr ⟨label, listed, found⟩)
  rcases hosted with kind | kind
  · exact absurd (among (.type label) (by simp [HostPart.ofLabel?, kind]))
      (by simp [HostPart.isRoot])
  · exact absurd (among (.object label) (by simp [HostPart.ofLabel?, kind]))
      (by simp [HostPart.isRoot])

/-- The ordinary part of a value has no label of a class or an instance. -/
theorem not_hosted_of_notForeign (v : Value) : ∀ label ∈ v.notForeign.labels, ¬ label.IsHosted := by
  intro label member hosted
  have ordinary := (FinSet.mem_filter.mp member).2
  rcases hosted with kind | kind <;> simp [Label.isForeign, Kind.isForeign, kind] at ordinary

end Value

theorem FlowGraph.successors_of_single {fg : FlowGraph} {block target : Nat}
    (single : fg.singleSuccessor block = .ok target) : fg.successors block = .ok [target] := by
  obtain ⟨successors, found, rest⟩ := of_bind_eq_ok single
  rcases successors with _ | ⟨first, _ | ⟨second, others⟩⟩
  · cases rest
  · cases rest
    exact found
  · cases rest

namespace Foreign

open Transfer

variable {σ α β : Type}

/-! ### The parts of the rules -/

/-- A property of values that the rules keep when they make values out of others, and that the
    objects have which the rules make at a node. -/
structure MadeValues (node : Node) (V : Value → Prop) : Prop where
  empty : V .none
  join : ∀ {v w : Value}, V v → V w → V (v.join w)
  notForeign : ∀ {v : Value}, V v → V v.notForeign
  withoutAttributes : ∀ {v : Value}, V v → V v.withoutAttributes
  root : V (.object ⟨node.index, .foreignRoot, none⟩)
  type : ∀ c : String,
    V (Value.object ⟨node.index, .foreignType, some c⟩).setDontDelete.setDontEnum.setReadOnly

/-- Questions to the host keep an invariant, and have answers with a property. -/
structure Answers (setting : Setting σ) (node : Node) (I : Machine σ → Prop) (V : Value → Prop)
    (E : Error → Prop) : Prop where
  propertyValue : ∀ className property,
    Safe I E (ask (setting.host.propertyValue className property)) V
  functionValue : ∀ className function,
    Safe I E (ask (setting.host.functionValue className function)) V
  call : ∀ receiver method arguments,
    Safe I E (ask (setting.host.call receiver method arguments)) V
  setProperty : ∀ receiver property {v : Value}, V v →
    Safe I E (ask (setting.host.setProperty receiver property v)) fun _ => True
  construct : ∀ className, Safe I E (ask (setting.host.construct node.index className)) V

/-- Where a node writes properties of a value, none of them belongs to a class or an instance. -/
def SparesHosted (node : Node) (m : Machine σ) : Prop :=
  ∀ base property r u, node.operation = .writeProperty base property r →
    m.state.registers.get? base = some u → ∀ label ∈ u.labels, ¬ label.IsHosted

/-- The parts of the rules for host values keep an invariant `I` of the machine, up to the push of a
    call, after which `H` holds. All values that come up have the property `V`, and all errors the
    property `E`. -/
structure Parts (setting : Setting σ) (node : Node) (I H : Machine σ → Prop) (V : Value → Prop)
    (E : Error → Prop) : Prop where
  values : MadeValues node V
  answers : Answers setting node I V E
  held : ∀ {m r v}, I m → m.state.registers.get? r = some v → V v
  missing : ∀ {e : Error}, e.Missing → E e
  ofHost : ∀ cause, E (.ofHost cause)
  unnamed : ∀ {v : Value} {part : Value.HostPart}, V v → part ∈ v.hostParts →
    part.isRoot = false → part.label.className = none → E (.invariant (.noClassName part.label))
  interner : ∀ {m} interner, I m → I { m with interner }
  event : ∀ {m} event, I m → I { m with events := m.events ++ [event] }
  write : ∀ {m} r {v}, V v → I m → I { m with state := m.state.writeRegister r v }
  definition : ∀ {m} r, I m → I { m with state := m.state.addMustDef r node.index }
  newRoot : ∀ {m}, I m → I { m with
    state := m.state.newObject ⟨node.index, .foreignRoot, none⟩ (.ofShape .absentModified) }
  newType : node.kind = .call → ∀ {m} c, I m → I { m with
    state := m.state.newObject ⟨node.index, .foreignType, some c⟩ (.ofShape .absentModified) }
  weakWrite : ∀ {m s' labels key v}, (∀ label ∈ labels, ¬ label.IsHosted) → V v → I m →
    m.state.Changes s' (m.state.contents.change labels fun shape? =>
      some ((shape?.getD .absentModified).store false key v.joinModified)).shapes →
    I { m with state := s' }
  variableWrite : ∀ {m m' name r v f}, node.operation = .writeVariable name r → V v → I m →
    m.After setting.program node (m.state.contents.writeVariable f name v) m' → I m'
  step : ∀ {m m' c}, SparesHosted node m → I m →
    m.state.contents.step setting.program node = .ok c → m.After setting.program node c m' → I m'
  push : node.kind = .call → ∀ {m target}, setting.program.successors node.block = .ok [target] →
    I m → H { m with
      state := m.state.freezeHeap
      pushes := m.pushes ++ [⟨m.state.freezeHeap, ⟨target, m.state.context⟩⟩] }
  noPush : node.kind = .call → ∀ {e}, setting.program.singleSuccessor node.block = .error e → E e

theorem MadeValues.any (node : Node) : MadeValues node fun _ => True :=
  ⟨trivial, fun _ _ => trivial, fun _ => trivial, fun _ => trivial, trivial, fun _ => trivial⟩

/-- Where the memory of the host does not matter, its answers do not matter either. -/
theorem Answers.any {setting : Setting σ} {node : Node} {I : Machine σ → Prop}
    (keeps : ∀ m host, I m → I { m with host }) :
    Answers setting node I (fun _ => True) fun _ => True := by
  have asked (α : Type) (call : HostCall σ α) : Safe I (fun _ => True) (ask call) fun _ => True :=
    fun m kept => ⟨keeps m _ kept, fun _ _ => trivial, fun _ _ => trivial⟩
  exact ⟨fun _ _ => asked _ _, fun _ _ => asked _ _, fun _ _ _ => asked _ _,
    fun _ _ _ _ => asked _ _, fun _ => asked _ _⟩

namespace Parts

variable {setting : Setting σ} {node : Node} {I H : Machine σ → Prop} {V : Value → Prop}
  {E : Error → Prop} (parts : Parts setting node I H V E)

include parts

theorem safe_readRegister (r : Register) : Safe I E (readRegister r) V :=
  .read (fun m => .readRegister m r)
    (fun _ _ kept found => parts.held kept (Contents.registers_of_readRegister found))
    fun m e _ failed => parts.missing (FailsOnly.readRegister m.state.contents r e failed)

theorem safe_readRegisters (rs : List Register) :
    Safe I E (readRegisters rs) fun values => ∀ v ∈ values, V v :=
  .mapM rs fun r _ => parts.safe_readRegister r

theorem safe_propertyKey? (property : PropertyName) :
    Safe I E (propertyKey? property) fun _ => True :=
  .read (fun m => .propertyKey? m property) (fun _ _ _ _ => trivial)
    fun m e _ failed => parts.missing (FailsOnly.key? m.state.contents property e failed)

theorem safe_currentFunction : Safe I E (currentFunction setting) fun _ => True :=
  .read (fun m => .currentFunction setting m) (fun _ _ _ _ => trivial)
    fun _ e _ failed => parts.missing (FailsOnly.function _ _ e failed)

theorem safe_intern (f : Interner → Interner) : Safe I E (intern f) fun _ => True :=
  .modify fun _ => parts.interner _

theorem safe_notify (event : Event) : Safe I E (notify event) fun _ => True :=
  .modify fun _ => parts.event event

theorem safe_writeRegister (r : Register) {v : Value} (holds : V v) :
    Safe I E (modifyState fun s => s.writeRegister r v) fun _ => True :=
  .modify fun _ => parts.write r holds

theorem safe_writeResult (r : Register) {v : Value} (holds : V v) :
    Safe I E (writeResult node r v) fun _ => True :=
  .modify fun _ kept => parts.definition r (parts.write r holds kept)

theorem safe_writeResult? (r : Option Register) {v : Value} (holds : V v) :
    Safe I E (writeResult? node r v) fun _ => True := by
  cases r with
  | none => exact .pure trivial
  | some r => exact parts.safe_writeResult r holds

theorem safe_internValue {v : Value} (holds : V v) : Safe I E (internValue v) V := by
  rw [internValue_eq]
  exact .bind (parts.safe_intern _) fun _ _ => .pure holds

theorem safe_askValue {call : HostCall σ Value} (asked : Safe I E (ask call) V) :
    Safe I E (askValue call) V :=
  .bind asked fun _ holds => parts.safe_internValue holds

/-- A class or an instance that lacks its name makes the rule fail, which has to be allowed. -/
theorem safe_className {v : Value} (holds : V v) {part : Value.HostPart}
    (member : part ∈ v.hostParts) (notRoot : part.isRoot = false) :
    Safe I E (className part.label) fun _ => True := by
  unfold className
  cases found : part.label.className with
  | none => exact .throw (parts.unnamed holds member notRoot found)
  | some name => exact .pure trivial

theorem safe_memberName (key : Option Key) : Safe I E (memberName node key) fun _ => True := by
  unfold memberName
  split
  · exact .pure trivial
  · exact .throw (parts.ofHost _)
  · exact .throw (parts.ofHost _)

/-- A weak write never fails. -/
theorem safe_weakWriteProperty {labels : LabelSet} (apart : ∀ label ∈ labels, ¬ label.IsHosted)
    (key : Key) {v : Value} (holds : V v) :
    Safe I E (changeState fun s => s.weakWriteProperty labels key v) fun _ => True := by
  intro m kept
  obtain ⟨s', written, changes⟩ :=
    State.foldlM_storeProperty_changes false key v.joinModified labels m.state
  rw [run_changeState (m := m) (f := fun s => s.weakWriteProperty labels key v) written]
  refine ⟨parts.weakWrite apart holds kept changes, fun _ _ => trivial, ?_⟩
  rintro _ ⟨⟩

/-- A write of a variable fails only where the function is missing. -/
theorem safe_recordVariableWrite {name : String} {r : Register}
    (operation : node.operation = .writeVariable name r) {v : Value} (holds : V v) :
    Safe I E (Ordinary.recordVariableWrite setting node name r v) fun _ => True := by
  obtain ⟨index, block, _⟩ := node
  cases operation
  intro m kept
  apply (Ordinary.run_recordVariableWrite name r v).keeps kept
  · intro c _ m' stepped after
    obtain ⟨f, _, done⟩ := of_bind_eq_ok stepped
    cases done
    exact ⟨parts.variableWrite rfl holds kept after, trivial⟩
  · intro e failed
    apply parts.missing
    exact FailsOnly.bind (.function setting.program m.state.function) (fun _ => .ok _) e failed

/-- An ordinary rule leaves the state to the driver. -/
theorem fallback_at {m : Machine σ} (spares : SparesHosted node m) (kept : I m) :
    let ended := (Dispatcher.fallback setting node).run.run m
    I ended.2 ∧ (∀ handover, ended.1 = .ok handover → handover = .pending) ∧
      ∀ e, ended.1 = .error e → E e := by
  apply (Ordinary.run_rule setting node m).keeps kept
  · rintro c handover m' stepped ⟨pending, after⟩
    exact ⟨parts.step spares kept stepped after, pending⟩
  · exact fun e failed => parts.missing (FailsOnly.step _ node _ e failed)

/-- An ordinary rule that writes no property keeps the invariant. -/
theorem safe_fallback (kind : node.kind ≠ .writeProperty) :
    Safe I E (Dispatcher.fallback setting node) (· = .pending) := by
  intro m kept
  refine parts.fallback_at ?_ kept
  intro base property r u operation
  simp [Node.kind, operation, Operation.kind] at kind

/-- The register gets its value back also where the ordinary rule fails. -/
theorem safe_ordinaryPart (kind : node.kind ≠ .writeProperty) (base : Register) {ordinary : Value}
    (holds : V ordinary) (result : Option Register) :
    Safe I E (ordinaryPart Dispatcher.fallback setting node base ordinary result)
      fun v? => ∀ v, v? = some v → V v := by
  refine .bind (parts.safe_readRegister base) fun whole holdsWhole =>
    .bind (parts.safe_writeRegister base holds) fun _ _ =>
      .bind (.attempt (parts.safe_fallback kind)) ?_
  rintro outcome ⟨pending, allowed⟩
  split
  case' isTrue => refine .bind (parts.safe_writeRegister base holdsWhole) fun _ _ => ?_
  all_goals
    refine .bind (Safe.ofResult pending allowed) ?_
    rintro _ rfl
    refine .bind (P := fun s => ∀ r v, s.registers.get? r = some v → V v)
      (.read (r := fun m => .ok m.state) (fun _ => rfl) ?_ ?_) fun s each => .pure ?_
    · rintro m _ kept ⟨⟩ r v found
      exact parts.held kept found
    · rintro _ _ _ ⟨⟩
    · intro v found
      obtain ⟨r, _, held⟩ := Option.bind_eq_some_iff.mp found
      exact each r v held

theorem safe_runOrdinaryPart (kind : node.kind ≠ .writeProperty) (base : Register) {v : Value}
    (holds : V v) (result : Option Register) :
    Safe I E (runOrdinaryPart Dispatcher.fallback setting node base v result) fun _ => True := by
  unfold runOrdinaryPart
  split
  · exact .bind (parts.safe_ordinaryPart kind base (parts.values.notForeign holds) result)
      fun _ _ => .pure trivial
  · exact .pure trivial

/-- What the ordinary rule gives is joined to the answer of the host. -/
theorem safe_joinOrdinaryPart (kind : node.kind ≠ .writeProperty) (base : Register)
    (result : Option Register) {v : Value} (holds : V v) :
    Safe I E (joinOrdinaryPart Dispatcher.fallback setting node base result v) V := by
  refine .bind (parts.safe_readRegister base) fun whole holdsWhole => .ite (.pure holds) ?_
  refine .bind (parts.safe_ordinaryPart kind base (parts.values.notForeign holdsWhole) result)
    fun other holdsOther => ?_
  cases other with
  | none => exact .pure holds
  | some other => exact .pure (parts.values.join holds (holdsOther other rfl))

/-- The host is asked once for each class or instance among the parts of a value. -/
theorem safe_askProperties {v : Value} (holds : V v) (name : String) :
    Safe I E (askProperties setting node name (v.hostParts.filter fun part => !part.isRoot)) V := by
  refine .foldlM _ (fun part member w soFar => ?_) parts.values.empty
  obtain ⟨among, notRoot⟩ := List.mem_filter.mp member
  exact .bind (parts.safe_className holds among (Bool.not_eq_true' _ |>.mp notRoot)) fun c _ =>
    .bind (parts.safe_notify _) fun _ _ =>
      .bind (parts.safe_askValue (parts.answers.propertyValue c name)) fun _ answer =>
        .pure (parts.values.join soFar answer)

end Parts

/-! ### How rules end -/

/-- How the rule for a node ends: with the invariant where it leaves the state to the driver or
    fails, and with another property where it is a call that has handed on the state. -/
structure Concludes (node : Node) (I H : Machine σ → Prop) (E : Error → Prop)
    (ended : Except Error Handover × Machine σ) : Prop where
  pending : ended.1 = .ok .pending → I ended.2
  done : ended.1 = .ok .done → node.kind = .call ∧ H ended.2
  failed : ∀ e, ended.1 = .error e → I ended.2 ∧ E e

/-- The rule ends so on every machine with the invariant. -/
def Ends (node : Node) (I H : Machine σ → Prop) (E : Error → Prop) (x : Transfer σ Handover) :
    Prop :=
  ∀ m, I m → Concludes node I H E (x.run.run m)

theorem Concludes.of_pending {node : Node} {I H : Machine σ → Prop} {E : Error → Prop}
    {ended : Except Error Handover × Machine σ}
    (safe : I ended.2 ∧ (∀ handover, ended.1 = .ok handover → handover = .pending) ∧
      ∀ e, ended.1 = .error e → E e) : Concludes node I H E ended := by
  obtain ⟨kept, pending, allowed⟩ := safe
  refine ⟨fun _ => kept, fun done => ?_, fun e failed => ⟨kept, allowed e failed⟩⟩
  cases pending _ done

namespace Ends

variable {node : Node} {I H : Machine σ → Prop} {E : Error → Prop}

theorem of_safe {x : Transfer σ Handover} (safe : Safe I E x (· = .pending)) : Ends node I H E x :=
  fun m kept => .of_pending (safe m kept)

/-- What goes before the end of a rule keeps the invariant. -/
theorem bind {x : Transfer σ α} {f : α → Transfer σ Handover} {P : α → Prop} (first : Safe I E x P)
    (rest : ∀ a, P a → Ends node I H E (f a)) : Ends node I H E (x >>= f) := by
  intro m kept
  obtain ⟨kept', result, error⟩ := first m kept
  rcases ran : x.run.run m with ⟨e | a, m'⟩
  · rw [run_bind_of_error f ran]
    rw [ran] at kept' error
    refine ⟨?_, ?_, ?_⟩
    · rintro ⟨⟩
    · rintro ⟨⟩
    · rintro _ ⟨⟩
      exact ⟨kept', error e rfl⟩
  · rw [run_bind_of_ok f ran]
    rw [ran] at kept' result
    exact rest a (result a rfl) m' kept'

theorem ite {p : Prop} [Decidable p] {x y : Transfer σ Handover} (first : Ends node I H E x)
    (second : Ends node I H E y) : Ends node I H E (if p then x else y) := by
  split
  · exact first
  · exact second

/-- What follows a read may rely on the machine that was read from. -/
theorem read {x : Transfer σ α} {f : α → Transfer σ Handover} {r : Machine σ → Except Error α}
    (reads : ∀ m, x.Reads m (r m)) (allowed : ∀ m e, r m = .error e → E e)
    (rest : ∀ m a, I m → r m = .ok a → Concludes node I H E ((f a).run.run m)) :
    Ends node I H E (x >>= f) := by
  intro m kept
  have ran : x.run.run m = (r m, m) := reads m
  cases found : r m with
  | error e =>
      rw [found] at ran
      rw [run_bind_of_error f ran]
      refine ⟨?_, ?_, ?_⟩
      · rintro ⟨⟩
      · rintro ⟨⟩
      · rintro _ ⟨⟩
        exact ⟨kept, allowed m e found⟩
  | ok a =>
      rw [found] at ran
      rw [run_bind_of_ok f ran]
      exact rest m a kept found

end Ends

/-- Only a call hands on the state by itself. -/
def Hands (node : Node) (handover : Handover) : Prop := handover = .done → node.kind = .call

/-- Where the push keeps the invariant as well, the rule does on the whole. -/
theorem Ends.safe {node : Node} {I : Machine σ → Prop} {E : Error → Prop}
    {x : Transfer σ Handover} (ends : Ends node I I E x) : Safe I E x (Hands node) := by
  intro m kept
  have ended := ends m kept
  generalize x.run.run m = result at ended ⊢
  obtain ⟨e | handover, m'⟩ := result
  · refine ⟨(ended.failed e rfl).1, ?_, fun e' same => (ended.failed e' same).2⟩
    rintro _ ⟨⟩
  · refine ⟨?_, ?_, ?_⟩
    · cases handover with
      | pending => exact ended.pending rfl
      | done => exact (ended.done rfl).2
    · rintro _ ⟨⟩ rfl
      exact (ended.done rfl).1
    · rintro _ ⟨⟩

/-! ### The rules -/

namespace Parts

variable {setting : Setting σ} {node : Node} {I H : Machine σ → Prop} {V : Value → Prop}
  {E : Error → Prop} (parts : Parts setting node I H V E)

include parts

theorem ends_fallback (kind : node.kind ≠ .writeProperty) :
    Ends node I H E (Dispatcher.fallback setting node) :=
  .of_safe (parts.safe_fallback kind)

theorem ends_readVariable (kind : node.kind = .readVariable) :
    Ends node I H E (readVariable Dispatcher.fallback setting node) := by
  have rule := parts.safe_fallback (by simp [kind])
  unfold readVariable
  cases operation : node.operation with
  | readVariable result name =>
      refine .of_safe (.bind parts.safe_currentFunction fun f _ => .ite rule ?_)
      refine .bind (.bind (parts.safe_intern _) fun _ _ => .modify fun _ => parts.newRoot)
        fun _ _ => .bind (parts.safe_writeResult result parts.values.root) fun _ _ => .pure rfl
  | _ => simp [Node.kind, operation, Operation.kind] at kind

theorem ends_readProperty (kind : node.kind = .readProperty) :
    Ends node I H E (readProperty Dispatcher.fallback setting node) := by
  have notWrite : node.kind ≠ .writeProperty := by simp [kind]
  have rule := parts.safe_fallback notWrite
  unfold readProperty
  cases operation : node.operation with
  | readProperty result base property =>
      refine .of_safe (.bind (parts.safe_readRegister base) fun v holds =>
        .ite rule (.ite (.ite rule ?_) ?_))
      · exact .bind (parts.safe_runOrdinaryPart notWrite base holds result) fun _ _ => .pure rfl
      · exact .bind (parts.safe_propertyKey? property) fun key _ =>
          .bind (parts.safe_memberName key) fun name _ =>
            .bind (parts.safe_askProperties holds name) fun _ answers =>
              .bind (parts.safe_joinOrdinaryPart notWrite base result answers) fun _ joined =>
                .bind (parts.safe_writeResult? result joined) fun _ _ => .pure rfl
  | _ => simp [Node.kind, operation, Operation.kind] at kind

theorem ends_writeProperty (kind : node.kind = .writeProperty) :
    Ends node I H E (writeProperty Dispatcher.fallback setting node) := by
  unfold writeProperty
  cases operation : node.operation with
  | writeProperty base property r =>
      -- Whether the ordinary rule runs depends on what the register holds right here.
      refine .read (fun m => .readRegister m base)
        (fun m e failed => parts.missing (FailsOnly.readRegister _ base e failed)) ?_
      intro m u kept found
      have held := Contents.registers_of_readRegister found
      have holds : V u := parts.held kept held
      dsimp only
      split
      · rename_i roots
        refine .of_pending (parts.fallback_at ?_ kept)
        intro base' _ _ v same other
        rw [operation] at same
        cases same
        cases held.symm.trans other
        exact Value.not_hosted_of_roots roots
      · suffices rest : Safe I E _ (· = Handover.pending) from .of_pending (rest m kept)
        refine .bind (parts.safe_propertyKey? property) fun key _ =>
          .bind (parts.safe_memberName key) fun name _ =>
            .bind (parts.safe_readRegister r) fun v holdsWritten =>
              .bind (.forM _ fun part member => ?_) fun _ _ =>
                .bind (parts.answers.setProperty u name holdsWritten) fun _ _ =>
                  .ite ?_ (.pure rfl)
        · obtain ⟨among, notRoot⟩ := List.mem_filter.mp member
          exact .bind (parts.safe_className holds among (Bool.not_eq_true' _ |>.mp notRoot))
            fun _ _ => parts.safe_notify _
        · exact .bind (parts.safe_notify _) fun _ _ =>
            .bind (parts.safe_weakWriteProperty u.not_hosted_of_notForeign _
              (parts.values.withoutAttributes holdsWritten)) fun _ _ => .pure rfl
  | _ => simp [Node.kind, operation, Operation.kind] at kind

theorem ends_writeVariable (kind : node.kind = .writeVariable) :
    Ends node I H E (writeVariable Dispatcher.fallback setting node) := by
  have rule := parts.safe_fallback (by simp [kind])
  unfold writeVariable
  cases operation : node.operation with
  | writeVariable name r =>
      refine .of_safe (.bind (parts.safe_readRegister r) fun v holds => .ite ?_ rule)
      exact .bind (parts.safe_recordVariableWrite operation holds) fun _ _ => .pure rfl
  | _ => simp [Node.kind, operation, Operation.kind] at kind

/-! ### Calls -/

/-- A call either has one block to hand the state to, or fails before it pushes. -/
theorem ends_pushOn (kind : node.kind = .call) :
    Ends node I H E (do pushOn setting node; return .done) := by
  intro m kept
  unfold pushOn
  cases single : setting.program.singleSuccessor node.block with
  | error e =>
      refine ⟨?_, ?_, ?_⟩
      · rintro ⟨⟩
      · rintro ⟨⟩
      · rintro _ ⟨⟩
        exact ⟨kept, parts.noPush kind single⟩
  | ok target =>
      refine ⟨?_, fun _ => ?_, ?_⟩
      · rintro ⟨⟩
      · exact ⟨kind, parts.push kind (FlowGraph.successors_of_single single) kept⟩
      · rintro _ ⟨⟩

theorem ends_finishCall (kind : node.kind = .call) (base : Register) (result : Option Register)
    {v : Value} (holds : V v) :
    Ends node I H E (finishCall Dispatcher.fallback setting node base result v) :=
  .bind (parts.safe_joinOrdinaryPart (by simp [kind]) base result holds) fun _ joined =>
    .bind (parts.safe_writeResult? result joined) fun _ _ => parts.ends_pushOn kind

theorem ends_construct (kind : node.kind = .call) (operands : CallOperands) :
    Ends node I H E (construct Dispatcher.fallback setting node operands) := by
  have rule : Ends node I H E _ := parts.ends_fallback (by simp [kind])
  unfold construct
  cases operands.function with
  | none => exact rule
  | some function =>
      refine .bind (parts.safe_readRegister function) fun v holds => ?_
      rcases first : v.hostParts.head? with _ | ⟨label | label | label⟩
      case some.type =>
        exact .bind (parts.safe_className holds (List.mem_of_mem_head? first) rfl) fun c _ =>
          .bind (parts.safe_readRegisters operands.arguments) fun _ _ =>
            .bind (parts.safe_notify _) fun _ _ =>
              .bind (parts.safe_askValue (parts.answers.construct c)) fun _ made =>
                parts.ends_finishCall kind function operands.result made
      all_goals exact rule

/-- The call that names a class is the one that stores an object under a host label. -/
theorem ends_callRoot (kind : node.kind = .call) (operands : CallOperands) (base : Register)
    (name : String) :
    Ends node I H E (callRoot Dispatcher.fallback setting node operands base name) := by
  have rule : Ends node I H E _ := parts.ends_fallback (by simp [kind])
  unfold callRoot
  refine .ite rule ?_
  rcases operands.arguments with _ | ⟨r, _ | ⟨second, rest⟩⟩
  case cons.nil =>
    refine .bind (parts.safe_readRegister r) fun v _ => ?_
    cases v.exactString? with
    | none => exact .of_safe (.throw (parts.ofHost _))
    | some c =>
        exact .bind (.bind (parts.safe_intern _) fun _ _ => .modify fun _ => parts.newType kind c)
          fun _ _ => parts.ends_finishCall kind base operands.result (parts.values.type c)
  all_goals exact rule

theorem ends_callObject (kind : node.kind = .call) (operands : CallOperands) (base : Register)
    {receiver : Value} (holds : V receiver) (name : String) {label : Label}
    (member : .object label ∈ receiver.hostParts) :
    Ends node I H E
      (callObject Dispatcher.fallback setting node operands base receiver name label) := by
  refine .bind (parts.safe_className holds member rfl) fun c _ =>
    .bind (parts.safe_readRegisters operands.arguments) fun arguments _ =>
      .bind (parts.safe_notify _) fun _ _ =>
        .bind (parts.answers.call receiver name arguments) fun v answer => .ite (.of_safe ?_) ?_
  · exact .bind (parts.safe_runOrdinaryPart (by simp [kind]) base holds operands.result)
      fun _ _ => .pure rfl
  · exact .bind (parts.safe_internValue answer) fun _ interned =>
      parts.ends_finishCall kind base operands.result interned

theorem ends_callType (kind : node.kind = .call) (operands : CallOperands) (base : Register)
    {receiver : Value} (holds : V receiver) (name : String) {label : Label}
    (member : .type label ∈ receiver.hostParts) :
    Ends node I H E (callType Dispatcher.fallback setting node operands base name label) :=
  .bind (parts.safe_className holds member rfl) fun c _ =>
    .bind (parts.safe_readRegisters operands.arguments) fun _ _ =>
      .bind (parts.safe_notify _) fun _ _ =>
        .bind (parts.safe_askValue (parts.answers.functionValue c name)) fun _ answer =>
          parts.ends_finishCall kind base operands.result answer

theorem ends_call (kind : node.kind = .call) :
    Ends node I H E (call Dispatcher.fallback setting node) := by
  have rule : Ends node I H E _ := parts.ends_fallback (by simp [kind])
  unfold call
  cases operation : node.operation with
  | call operands =>
      refine .ite (parts.ends_construct kind operands) ?_
      rcases operands.base with _ | base
      · exact rule
      rcases operands.property with _ | name
      · exact rule
      refine .bind (parts.safe_readRegister base) fun receiver holds => ?_
      rcases first : receiver.hostParts.head? with _ | ⟨label | label | label⟩
      · exact rule
      · exact parts.ends_callRoot kind operands base name
      · exact parts.ends_callType kind operands base holds name (List.mem_of_mem_head? first)
      · exact parts.ends_callObject kind operands base holds name (List.mem_of_mem_head? first)
  | _ => simp [Node.kind, operation, Operation.kind] at kind

/-- An invariant that the parts of the rules keep is kept by the rules. -/
theorem dispatch : Ends node I H E ((Dispatcher.base.withLayer layer).dispatch setting node) := by
  unfold Dispatcher.dispatch
  rw [Dispatcher.effective_layered]
  cases kind : node.kind with
  | readVariable => exact parts.ends_readVariable kind
  | writeVariable => exact parts.ends_writeVariable kind
  | readProperty => exact parts.ends_readProperty kind
  | writeProperty => exact parts.ends_writeProperty kind
  | call => exact parts.ends_call kind
  | foreignMarker =>
      obtain ⟨index, block, operation⟩ := node
      cases operation with
      | foreignMarker => exact .of_safe (.pure rfl)
      | _ => cases kind
  | constant | newObject | binaryOperator | nop =>
      have rule : Ends node I H E _ := parts.ends_fallback (by simp [kind])
      unfold Dispatcher.fallback at rule
      rw [kind] at rule
      exact rule

end Parts

end Foreign

end ScriptHeap
