import ScriptHeap.Proofs.State.Contents
import ScriptHeap.Proofs.Transfer.Foreign

/-!
# What an ordinary rule does

An ordinary rule is a step on the contents of the state (`Contents.step`): it fails where the step
does, and otherwise leaves the contents that the step gives (`Ordinary.run_rule`). The interner, the
log and the host have no part in it. Of the facts about registers, those on properties are followed:
a rule forgets the fact on the register it writes and may note a new one (`Contents.Notes`).
-/

namespace ScriptHeap

/-! ### Steps on contents -/

theorem of_bind_eq_ok {ε α β : Type} {x : Except ε α} {f : α → Except ε β} {b : β}
    (done : (x >>= f) = .ok b) : ∃ a, x = .ok a ∧ f a = .ok b := by
  cases x with
  | error e => cases done
  | ok a => exact ⟨a, rfl, done⟩

theorem FlowGraph.mem_functions {program : FlowGraph} {index : Nat} {f : Function}
    (found : program.function index = .ok f) : f ∈ program.functions := by
  unfold FlowGraph.function at found
  cases held : program.functions[index]? with
  | none =>
      rw [held] at found
      cases found
  | some g =>
      rw [held] at found
      cases found
      exact List.mem_of_getElem? held

theorem FlowGraph.main_mem_functions {program : FlowGraph} {main : Function}
    (found : program.main = .ok main) : main ∈ program.functions := by
  unfold FlowGraph.main at found
  cases first : program.functions.head? with
  | none =>
      simp only [first] at found
      cases found
  | some f =>
      simp only [first] at found
      cases found
      exact List.mem_of_head? first

theorem FlowGraph.get?_of_block {program : FlowGraph} {index : Nat} {block : Block}
    (found : program.block index = .ok block) :
    program.graph.vertices.get? index = some block := by
  unfold FlowGraph.block at found
  cases held : program.graph.vertices.get? index with
  | none =>
      simp only [held] at found
      cases found
  | some other =>
      simp only [held] at found
      cases found
      rfl

theorem FlowGraph.mem_blocks {program : FlowGraph} {index : Nat} {block : Block}
    (found : program.block index = .ok block) : block ∈ program.blocks :=
  FinMap.mem_values_iff.mpr ⟨index, get?_of_block found⟩

/-- The label of the objects that a node makes. -/
def Node.label (node : Node) : Label := ⟨node.index, .object, none⟩

/-- The node makes an object. -/
def Node.Makes (node : Node) : Prop :=
  (∃ result, node.operation = .newObject result) ∨
    ∃ operands, node.operation = .call operands ∧ operands.constructor = true

namespace Contents

/-- The key of a property access, where its name is known. -/
def key? (c : Contents) : PropertyName → Except Error (Option Key)
  | .fixed name => .ok (some (.name name))
  | .dynamic r => do return (← c.readRegister r).exactString?.map .name

/-- Read a property of a value, of which the primitives have properties that are not known. -/
def readThrough (c : Contents) (base : Value) (key : Option Key) : Value :=
  let v := State.readAs (key.elim (c.readAnyProperty base.labels) (c.readProperty base.labels))
  if base.maybePrimitive then v.join .anyPrimitive else v

/-- Write a property of every object of some labels. -/
def writeThrough (c : Contents) (labels : LabelSet) (key : Option Key) (v : Value) : Contents :=
  key.elim (c.writeAnyProperty labels v) fun key => c.writeProperty labels key v

/-- What a node makes of the contents of a state. -/
def step (program : FlowGraph) (node : Node) (c : Contents) : Except Error Contents :=
  match node.operation with
  | .constant result value => .ok (c.write result value.value)
  | .readVariable result name => do
    let f ← program.function c.function
    return c.write result (c.readVariable f name)
  | .writeVariable name r => do
    let v ← c.readRegister r
    let f ← program.function c.function
    return c.writeVariable f name v.withoutAttributes.collapse
  | .readProperty result base property => do
    let u ← c.readRegister base
    let key ← c.key? property
    return c.write? result (c.readThrough u key)
  | .writeProperty base property r => do
    let u ← c.readRegister base
    let v ← c.readRegister r
    let key ← c.key? property
    return c.writeThrough u.labels key v.withoutAttributes
  | .newObject result => .ok ((c.allocate node.label).write result (.object node.label))
  | .call operands => do
    let _ ← operands.arguments.mapM c.readRegister
    return if operands.constructor then
        (c.allocate node.label).write? operands.result (.object node.label)
      else c.write? operands.result .anyPrimitive
  | .binaryOperator result op lhs rhs => do
    let lhs ← c.readRegister lhs
    let rhs ← c.readRegister rhs
    return c.write result (op.value lhs rhs)
  | .foreignMarker _ | .nop => .ok c

/-- What nodes make of contents, one after the other. -/
def run (program : FlowGraph) (nodes : List Node) (c : Contents) : Except Error Contents :=
  nodes.foldlM (fun c node => c.step program node) c

theorem run_cons (program : FlowGraph) (node : Node) (rest : List Node) (c : Contents) :
    c.run program (node :: rest) = c.step program node >>= fun d => d.run program rest :=
  List.foldlM_cons

theorem of_run_concat {program : FlowGraph} {nodes : List Node} {node : Node} {c d' : Contents}
    (done : c.run program (nodes ++ [node]) = .ok d') :
    ∃ d, c.run program nodes = .ok d ∧ d.step program node = .ok d' := by
  unfold run at done
  rw [List.foldlM_append] at done
  obtain ⟨d, first, last⟩ := of_bind_eq_ok done
  obtain ⟨e, stepped, same⟩ := of_bind_eq_ok last
  cases same
  exact ⟨d, first, stepped⟩

@[simp] theorem registers_writeThrough (c : Contents) (labels : LabelSet) (key : Option Key)
    (v : Value) : (c.writeThrough labels key v).registers = c.registers := by
  cases key <;> rfl

theorem registers_of_readRegister {c : Contents} {r : Register} {v : Value}
    (done : c.readRegister r = .ok v) : c.registers r = some v := by
  unfold readRegister at done
  cases found : c.registers r with
  | none => simp [found] at done
  | some w => simpa [found] using done

theorem readRegister_of_registers {c : Contents} {r : Register} {v : Value}
    (held : c.registers r = some v) : c.readRegister r = .ok v := by
  simp [readRegister, held]

/-- What a step can make of the contents, case by case. -/
inductive Steps (program : FlowGraph) (node : Node) (c : Contents) : Contents → Prop where
  | constant {result : Register} {value : Constant}
      (operation : node.operation = .constant result value) :
      Steps program node c (c.write result value.value)
  | readVariable {result : Register} {name : String} {f : Function}
      (operation : node.operation = .readVariable result name)
      (function : program.function c.function = .ok f) :
      Steps program node c (c.write result (c.readVariable f name))
  | writeVariable {name : String} {r : Register} {v : Value} {f : Function}
      (operation : node.operation = .writeVariable name r) (value : c.registers r = some v)
      (function : program.function c.function = .ok f) :
      Steps program node c (c.writeVariable f name v.withoutAttributes.collapse)
  | readProperty {result : Option Register} {base : Register} {property : PropertyName} {u : Value}
      {key : Option Key} (operation : node.operation = .readProperty result base property)
      (object : c.registers base = some u) (name : c.key? property = .ok key) :
      Steps program node c (c.write? result (c.readThrough u key))
  | writeProperty {base r : Register} {property : PropertyName} {u v : Value} {key : Option Key}
      (operation : node.operation = .writeProperty base property r)
      (object : c.registers base = some u) (value : c.registers r = some v)
      (name : c.key? property = .ok key) :
      Steps program node c (c.writeThrough u.labels key v.withoutAttributes)
  | newObject {result : Register} (operation : node.operation = .newObject result) :
      Steps program node c ((c.allocate node.label).write result (.object node.label))
  | construct {operands : CallOperands} (operation : node.operation = .call operands)
      (constructor : operands.constructor = true) :
      Steps program node c ((c.allocate node.label).write? operands.result (.object node.label))
  | call {operands : CallOperands} (operation : node.operation = .call operands)
      (constructor : operands.constructor = false) :
      Steps program node c (c.write? operands.result .anyPrimitive)
  | binaryOperator {result lhs rhs : Register} {op : BinaryOperator} {u v : Value}
      (operation : node.operation = .binaryOperator result op lhs rhs)
      (left : c.registers lhs = some u) (right : c.registers rhs = some v) :
      Steps program node c (c.write result (op.value u v))
  | idle (kind : node.operation.kind = .nop ∨ node.operation.kind = .foreignMarker) :
      Steps program node c c

theorem steps_of_step {program : FlowGraph} {node : Node} {c c' : Contents}
    (stepped : c.step program node = .ok c') : Steps program node c c' := by
  obtain ⟨index, block, operation⟩ := node
  cases operation with
  | constant result value =>
      cases stepped
      exact .constant rfl
  | readVariable result name =>
      obtain ⟨f, function, done⟩ := of_bind_eq_ok stepped
      cases done
      exact .readVariable rfl function
  | writeVariable name r =>
      obtain ⟨v, value, rest⟩ := of_bind_eq_ok stepped
      obtain ⟨f, function, done⟩ := of_bind_eq_ok rest
      cases done
      exact .writeVariable rfl (registers_of_readRegister value) function
  | readProperty result base property =>
      obtain ⟨u, object, rest⟩ := of_bind_eq_ok stepped
      obtain ⟨key, name, done⟩ := of_bind_eq_ok rest
      cases done
      exact .readProperty rfl (registers_of_readRegister object) name
  | writeProperty base property r =>
      obtain ⟨u, object, rest⟩ := of_bind_eq_ok stepped
      obtain ⟨v, value, rest⟩ := of_bind_eq_ok rest
      obtain ⟨key, name, done⟩ := of_bind_eq_ok rest
      cases done
      exact .writeProperty rfl (registers_of_readRegister object)
        (registers_of_readRegister value) name
  | newObject result =>
      cases stepped
      exact .newObject rfl
  | call operands =>
      obtain ⟨_, _, done⟩ := of_bind_eq_ok stepped
      cases done
      cases constructor : operands.constructor with
      | true => exact .construct rfl constructor
      | false => exact .call rfl constructor
  | binaryOperator result op lhs rhs =>
      obtain ⟨u, left, rest⟩ := of_bind_eq_ok stepped
      obtain ⟨v, right, done⟩ := of_bind_eq_ok rest
      cases done
      exact .binaryOperator rfl (registers_of_readRegister left) (registers_of_readRegister right)
  | foreignMarker _ =>
      cases stepped
      exact .idle (.inr rfl)
  | nop =>
      cases stepped
      exact .idle (.inl rfl)

/-- A step writes no register but that of its result. -/
theorem Steps.registers {program : FlowGraph} {node : Node} {c c' : Contents}
    (steps : Steps program node c c') {r : Register} (other : node.operation.result? ≠ some r) :
    c'.registers r = c.registers r := by
  cases steps with
  | constant operation | readVariable operation | binaryOperator operation =>
      rw [operation] at other
      exact if_neg fun same => other (congrArg some same.symm)
  | newObject operation =>
      rw [operation] at other
      exact if_neg fun same => other (congrArg some same.symm)
  | readProperty operation | construct operation | call operation =>
      rw [operation] at other
      rw [registers_write?]
      exact if_neg other
  | writeVariable => rw [registers_writeVariable]
  | writeProperty => rw [registers_writeThrough]
  | idle => rfl

/-- The values that a node can write to a register. -/
inductive Results (program : FlowGraph) (node : Node) (c : Contents) : Value → Prop where
  | constant {result : Register} {value : Constant}
      (operation : node.operation = .constant result value) : Results program node c value.value
  | readVariable {f : Function} {name : String} (function : program.function c.function = .ok f) :
      Results program node c (c.readVariable f name)
  | readProperty {base : Register} {property : PropertyName} {u : Value} {key : Option Key}
      (object : c.registers base = some u) (name : c.key? property = .ok key) :
      Results program node c (c.readThrough u key)
  | object (makes : node.Makes) : Results program node c (.object node.label)
  | anyPrimitive : Results program node c .anyPrimitive
  | operator {lhs rhs : Register} {op : BinaryOperator} {u v : Value}
      (left : c.registers lhs = some u) (right : c.registers rhs = some v) :
      Results program node c (op.value u v)

/-- A register holds what it held before, or a result of the node. -/
theorem Steps.register {program : FlowGraph} {node : Node} {c c' : Contents}
    (steps : Steps program node c c') {r : Register} {v : Value}
    (found : c'.registers r = some v) :
    c.registers r = some v ∨ Results program node c v := by
  have written : ∀ {q : Option Register} {w : Value} {d : Contents}, d.registers = c.registers →
      Results program node c w → (d.write? q w).registers r = some v →
      c.registers r = some v ∨ Results program node c v := by
    intro q w d same result found
    rw [registers_write?, same] at found
    split at found
    · cases found
      exact .inr result
    · exact .inl found
  cases steps with
  | @constant result _ operation => exact written (q := some result) rfl (.constant operation) found
  | @readVariable result _ _ _ function =>
      exact written (q := some result) rfl (.readVariable function) found
  | writeVariable =>
      rw [registers_writeVariable] at found
      exact .inl found
  | readProperty _ object name => exact written rfl (.readProperty object name) found
  | writeProperty =>
      rw [registers_writeThrough] at found
      exact .inl found
  | @newObject result operation =>
      exact written (q := some result) (d := c.allocate node.label) rfl
        (.object (.inl ⟨_, operation⟩)) found
  | construct operation constructor =>
      exact written (d := c.allocate node.label) rfl
        (.object (.inr ⟨_, operation, constructor⟩)) found
  | call => exact written rfl .anyPrimitive found
  | @binaryOperator result _ _ _ _ _ _ left right =>
      exact written (q := some result) rfl (.operator left right) found
  | idle => exact .inl found

/-- The node notes that a register equals a property: a variable that it writes from the register,
    or a property that it reads through one label. -/
inductive Notes (program : FlowGraph) (c : Contents) (node : Node) (r : Register) :
    Label → Key → Prop where
  | written {name : String} {f : Function} (operation : node.operation = .writeVariable name r)
      (function : program.function c.function = .ok f) :
      Notes program c node r (f.variableLabel name) (.name name)
  | read {base : Register} {property : PropertyName} {u : Value} {label : Label} {key : Key}
      (operation : node.operation = .readProperty (some r) base property)
      (value : c.registers base = some u) (name : c.key? property = .ok (some key))
      (only : u.labels.toList = [label]) : Notes program c node r label key

end Contents

/-! ### Running the primitives -/

namespace Fallible

variable {ω α β : Type}

/-- The run of a sequence whose first part fails. -/
theorem run_bind_of_error {x : ExceptT Error (StateM ω) α} (f : α → ExceptT Error (StateM ω) β)
    {s s' : ω} {e : Error} (failed : x.run.run s = (.error e, s')) :
    (x >>= f).run.run s = (.error e, s') := by
  rw [run_bind, failed]

end Fallible

namespace Transfer

open Fallible

variable {σ α β : Type} {m : Machine σ}

/-- The transfer has a result, or fails, and leaves the machine alone. -/
def Reads (x : Transfer σ α) (m : Machine σ) (r : Except Error α) : Prop :=
  x.run.run m = (r, m)

namespace Reads

theorem bind {x : Transfer σ α} {f : α → Transfer σ β} {r : Except Error α}
    {g : α → Except Error β} (first : x.Reads m r) (rest : ∀ a, (f a).Reads m (g a)) :
    Reads (x >>= f) m (r >>= g) := by
  cases r with
  | error e => exact run_bind_of_error f first
  | ok a => exact (run_bind_of_ok f first).trans (rest a)

theorem readRegister (m : Machine σ) (r : Register) :
    (Transfer.readRegister r).Reads m (m.state.contents.readRegister r) := rfl

theorem readRegisters (m : Machine σ) (rs : List Register) :
    (Transfer.readRegisters rs).Reads m (rs.mapM m.state.contents.readRegister) := by
  unfold Transfer.readRegisters
  induction rs with
  | nil => rfl
  | cons r rest ih =>
      rw [List.mapM_cons, List.mapM_cons]
      exact bind (readRegister m r) fun _ => bind ih fun _ => rfl

theorem currentFunction (setting : Setting σ) (m : Machine σ) :
    (Transfer.currentFunction setting).Reads m
      (setting.program.function m.state.contents.function) := rfl

theorem propertyKey? (m : Machine σ) (name : PropertyName) :
    (Transfer.propertyKey? name).Reads m (m.state.contents.key? name) := by
  cases name with
  | fixed name => rfl
  | dynamic r => exact bind (readRegister m r) fun _ => rfl

end Reads

theorem run_changeState {f : State → Except Error State} {s' : State}
    (changed : f m.state = .ok s') :
    (changeState f).run.run m = (.ok (), { m with state := s' }) := by
  unfold changeState
  refine (run_bind_of_ok _ rfl).trans ?_
  rw [changed]
  rfl

/-- How a transfer ends that follows a pure computation: where the computation fails, it fails and
    leaves the machine alone, and otherwise it ends with a result and a machine that fit. -/
def Yields (x : Transfer σ α) (m : Machine σ) (r : Except Error β)
    (fits : β → α → Machine σ → Prop) : Prop :=
  match r with
  | .ok b => ∃ a m', x.run.run m = (.ok a, m') ∧ fits b a m'
  | .error e => x.run.run m = (.error e, m)

namespace Yields

variable {γ δ : Type} {fits : δ → γ → Machine σ → Prop}

theorem read {x : Transfer σ α} {f : α → Transfer σ γ} {r : Except Error α}
    {g : α → Except Error δ} (first : x.Reads m r)
    (rest : ∀ a, r = .ok a → (f a).Yields m (g a) fits) :
    Transfer.Yields (x >>= f) m (r >>= g) fits := by
  cases r with
  | error e => exact run_bind_of_error f first
  | ok a =>
      have later := rest a rfl
      show Transfer.Yields _ m (g a) fits
      unfold Transfer.Yields at later ⊢
      rw [run_bind_of_ok f first]
      exact later

/-- A part of a transfer that the pure computation has no part for. Nothing can fail after it. -/
theorem skip {x : Transfer σ α} {f : α → Transfer σ γ} {a : α} {m' : Machine σ} {d : δ}
    (ran : x.run.run m = (.ok a, m')) (rest : (f a).Yields m' (.ok d) fits) :
    Transfer.Yields (x >>= f) m (.ok d) fits := by
  unfold Transfer.Yields at rest ⊢
  rw [run_bind_of_ok f ran]
  exact rest

/-- The end of a transfer that returns a fixed result. -/
theorem thenReturn {x : Transfer σ α} {r : Except Error δ} {P : δ → Machine σ → Prop}
    (first : x.Yields m r fun d _ m' => P d m') (c : γ) :
    Transfer.Yields (x >>= fun _ => pure c) m r fun d c' m' => c' = c ∧ P d m' := by
  cases r with
  | error e => exact run_bind_of_error _ first
  | ok d =>
      obtain ⟨a, m', ran, fitting⟩ := first
      exact ⟨c, m', (run_bind_of_ok _ ran).trans rfl, rfl, fitting⟩

end Yields

end Transfer

/-! ### The rules -/

/-- Whether the event is a question to the host. -/
def Event.isQuestion : Event → Bool
  | .hostQuery _ _ _ => true
  | _ => false

/-- The questions to the host that were logged. -/
def World.questions {σ : Type} (w : World σ) : List Event := w.events.filter Event.isQuestion

theorem Event.questions_append {event : Event} (other : event.isQuestion = false)
    (events : List Event) : (events ++ [event]).filter isQuestion = events.filter isQuestion := by
  simp [List.filter_append, other]

/-- The machine after a rule: it has the contents, and its facts on properties are those from
    before, but for the register that the rule writes, and those that the rule notes. Nothing is
    pushed, and the host is neither asked nor said to have been. -/
structure Machine.After {σ : Type} (program : FlowGraph) (node : Node) (m : Machine σ)
    (c : Contents) (m' : Machine σ) : Prop where
  contents : m'.state.contents = c
  facts : ∀ r label key, m'.state.mustEquals.get? r = some (label, key) →
    m.state.contents.Notes program node r label key ∨
      node.operation.result? ≠ some r ∧ m.state.mustEquals.get? r = some (label, key)
  context : m'.state.context = m.state.context
  pushes : m'.pushes = m.pushes
  host : m'.host = m.host
  questions : m'.toWorld.questions = m.toWorld.questions

namespace Ordinary

open Fallible Transfer

variable {σ : Type}

/-- How a rule ends: the state is left to the driver. -/
def Ends (program : FlowGraph) (node : Node) (m : Machine σ) (c : Contents) (handover : Handover)
    (m' : Machine σ) : Prop :=
  handover = .pending ∧ m.After program node c m'

variable {setting : Setting σ} {m : Machine σ} {index block : Nat}

theorem facts_write {facts : FinMap Register (Label × Key)} {r q : Register} {fact : Label × Key}
    (found : (facts.erase q).get? r = some fact) : some q ≠ some r ∧ facts.get? r = some fact := by
  rw [FinMap.get?_erase] at found
  split at found
  · cases found
  · rename_i other
    exact ⟨fun same => other (Option.some.inj same).symm, found⟩

theorem run_constant (result : Register) (value : Constant) :
    let node : Node := ⟨index, block, .constant result value⟩
    (Ordinary.constant setting node).Yields m (m.state.contents.step setting.program node)
      (Ends setting.program node m) :=
  ⟨.pending, _, rfl, rfl, State.contents_writeRegister _ _ _,
    fun _ _ _ found => .inr (facts_write found), rfl, rfl, rfl, rfl⟩

theorem run_readVariable (result : Register) (name : String) :
    let node : Node := ⟨index, block, .readVariable result name⟩
    (Ordinary.readVariable setting node).Yields m (m.state.contents.step setting.program node)
      (Ends setting.program node m) := by
  refine .read (.currentFunction setting m) fun f _ => ?_
  refine ⟨.pending, _, rfl, rfl, ?_, fun _ _ _ found => .inr (facts_write found), rfl, rfl, rfl,
    Event.questions_append rfl _⟩
  rw [← State.readVariable_contents _ m.interner]
  exact State.contents_writeRegister _ _ _

/-- The `arguments` object follows a parameter. -/
theorem run_writeArgument (f : Function) (name : String) (v : Value) :
    ∃ m' : Machine σ, (writeArgument f name v).run.run m = (.ok (), m') ∧
      m.state.Changes m'.state (m.state.contents.writeArgument f name v).shapes ∧
      m'.pushes = m.pushes ∧ m'.host = m.host ∧ m'.events = m.events := by
  unfold writeArgument Contents.writeArgument
  cases f.parameterIndex? name with
  | none => exact ⟨m, rfl, ⟨rfl, rfl⟩, rfl, rfl, rfl⟩
  | some i =>
      have held : (m.state.contents.shapes (.arguments f.index)).isSome =
          m.state.heap.contains (.arguments f.index) := by
        simp [State.contents, State.shapes, State.object?, FinMap.contains]
      let interned : Machine σ := { m with interner := m.interner.addLabel (.arguments f.index) }
      cases present : m.state.heap.contains (.arguments f.index) with
      | true =>
          obtain ⟨s', written, changes⟩ := m.state.writeProperty_changes
            (FinSet.singleton (.arguments f.index)) (.name (toString i)) v
          refine ⟨{ interned with state := s' }, ?_, ?_, rfl, rfl, rfl⟩
          · refine (run_bind_of_ok _ (rfl : _ = (Except.ok _, interned))).trans ?_
            refine (run_bind_of_ok _ (rfl : _ = (Except.ok _, interned))).trans ?_
            rw [if_pos (show interned.state.heap.contains _ = true from present)]
            exact run_changeState written
          · simpa [held, present] using changes
      | false =>
          refine ⟨interned, ?_, ⟨rfl, by simp only [held, present]; rfl⟩, rfl, rfl, rfl⟩
          refine (run_bind_of_ok _ (rfl : _ = (Except.ok _, interned))).trans ?_
          refine (run_bind_of_ok _ (rfl : _ = (Except.ok _, interned))).trans ?_
          rw [if_neg (show ¬ interned.state.heap.contains _ = true by simp [interned, present])]
          rfl

theorem run_recordVariableWrite (name : String) (r : Register) (w : Value) :
    let node : Node := ⟨index, block, .writeVariable name r⟩
    (recordVariableWrite setting node name r w).Yields m
      (do return m.state.contents.writeVariable (← setting.program.function m.state.function) name w)
      fun c _ m' => m.After setting.program node c m' := by
  intro node
  refine .read (.currentFunction setting m) fun f known => ?_
  let labels : LabelSet := FinSet.singleton (f.variableLabel name)
  obtain ⟨s₁, written, changes₁⟩ := m.state.writeProperty_changes labels (.name name) w
  have wrote : (m.state.writeVariable m.interner f name w).1 = .ok (labels, s₁) := by
    unfold State.writeVariable
    dsimp only
    rw [State.variableObject_eq, written]
    rfl
  let m₁ : Machine σ := { m with interner := (m.state.writeVariable m.interner f name w).2 }
  let m₂ : Machine σ := { m₁ with state := s₁ }
  obtain ⟨m₃, argument, changes₂, pushes, host, events⟩ := run_writeArgument (m := m₂) f name w
  let m₄ : Machine σ := { m₃ with
    events := m₃.events ++ [.variable index name w m₃.state.context] ++
      [.propertyWrite index labels (.name name)] }
  have frame : m₃.state = { m.state with heap := m₃.state.heap } := (changes₁.trans changes₂).frame
  refine ⟨(), { m₄ with state := m₃.state.addMustEquals r (f.variableLabel name) (.name name) },
    ?_, ?_⟩
  · refine (run_bind_of_ok _ (rfl : _ = (Except.ok _, m))).trans ?_
    refine (run_bind_of_ok _ (rfl : _ = (Except.ok _, m₁))).trans ?_
    refine (run_bind_of_ok _ (wrote ▸ rfl : _ = (Except.ok (labels, s₁), m₁))).trans ?_
    refine (run_bind_of_ok _ (rfl : _ = (Except.ok _, m₂))).trans ?_
    refine (run_bind_of_ok _ argument).trans ?_
    rfl
  · refine ⟨?_, ?_, by rw [frame]; rfl, pushes, host, ?_⟩
    · have first : s₁.contents = m.state.contents.writeProperty labels (.name name) w :=
        changes₁.contents
      show m₃.state.contents = (m.state.contents.writeProperty labels _ w).writeArgument f name w
      rw [changes₂.contents, ← first]
      exact (Contents.writeArgument_frame s₁.contents f name w).symm
    · intro q label key found
      have inserted : (m₃.state.mustEquals.insert r (f.variableLabel name, .name name)).get? q =
          some (label, key) := found
      rw [FinMap.get?_insert] at inserted
      split at inserted
      · rename_i same
        cases inserted
        exact .inl (same ▸ .written rfl known)
      · rw [frame] at inserted
        exact .inr ⟨nofun, inserted⟩
    · refine (Event.questions_append rfl _).trans ((Event.questions_append rfl _).trans ?_)
      rw [events]
      rfl

theorem run_writeVariable (name : String) (r : Register) :
    let node : Node := ⟨index, block, .writeVariable name r⟩
    (Ordinary.writeVariable setting node).Yields m (m.state.contents.step setting.program node)
      (Ends setting.program node m) :=
  .read (.readRegister m r) fun v _ =>
    .thenReturn (run_recordVariableWrite name r v.withoutAttributes.collapse) _

theorem run_readProperty (result : Option Register) (base : Register) (property : PropertyName) :
    let node : Node := ⟨index, block, .readProperty result base property⟩
    (Ordinary.readProperty setting node).Yields m (m.state.contents.step setting.program node)
      (Ends setting.program node m) := by
  intro node
  refine .read (.readRegister m base) fun u foundBase => ?_
  refine .read (.propertyKey? m property) fun key foundKey => ?_
  cases result with
  | none =>
      exact ⟨.pending, m, rfl, rfl, rfl, fun _ _ _ found => .inr ⟨nofun, found⟩, rfl, rfl, rfl, rfl⟩
  | some r =>
      refine .skip (x := Transfer.state) rfl ?_
      cases key with
      | none =>
          refine ⟨.pending, _, rfl, rfl, ?_, fun _ _ _ found => .inr (facts_write found), rfl, rfl,
            rfl, rfl⟩
          refine (State.contents_writeRegister _ _ _).trans ?_
          rw [State.readAnyProperty_contents]
          rfl
      | some key =>
          dsimp only
          rw [State.readProperty_contents]
          let v := m.state.contents.readThrough u (some key)
          let m₁ : Machine σ := { m with
            state := (m.state.writeRegister r v).addMustDef r index }
          have contents : m₁.state.contents = m.state.contents.write r v :=
            State.contents_writeRegister _ _ _
          refine .skip (rfl : _ = (Except.ok _, m₁)) ?_
          rcases only : u.labels.toList with _ | ⟨label, _ | ⟨second, rest⟩⟩
          · exact ⟨.pending, m₁, rfl, rfl, contents, fun _ _ _ found => .inr (facts_write found),
              rfl, rfl, rfl, rfl⟩
          · refine ⟨.pending, { m₁ with state := m₁.state.addMustEquals r label key }, rfl, rfl,
              contents, ?_, rfl, rfl, rfl, rfl⟩
            intro q label' key' found
            have inserted : (m₁.state.mustEquals.insert r (label, key)).get? q =
                some (label', key') := found
            rw [FinMap.get?_insert] at inserted
            split at inserted
            · rename_i same
              cases inserted
              exact .inl (same ▸ .read rfl (Contents.registers_of_readRegister foundBase) foundKey only)
            · exact .inr (facts_write inserted)
          · exact ⟨.pending, m₁, rfl, rfl, contents, fun _ _ _ found => .inr (facts_write found),
              rfl, rfl, rfl, rfl⟩

theorem run_writeProperty (base : Register) (property : PropertyName) (r : Register) :
    let node : Node := ⟨index, block, .writeProperty base property r⟩
    (Ordinary.writeProperty setting node).Yields m (m.state.contents.step setting.program node)
      (Ends setting.program node m) := by
  intro node
  refine .read (.readRegister m base) fun u _ => ?_
  refine .read (.readRegister m r) fun v _ => ?_
  refine .read (.propertyKey? m property) fun key _ => ?_
  have unchanged : ∀ {s' : State} {shapes : Lookup Label Shape}, m.state.Changes s' shapes →
      ∀ q label key, s'.mustEquals.get? q = some (label, key) →
      m.state.contents.Notes setting.program node q label key ∨
        node.operation.result? ≠ some q ∧ m.state.mustEquals.get? q = some (label, key) := by
    intro s' shapes changes q label key found
    rw [changes.frame] at found
    exact .inr ⟨nofun, found⟩
  cases key with
  | none =>
      obtain ⟨s', written, changes⟩ := m.state.writeAnyProperty_changes u.labels v.withoutAttributes
      refine .thenReturn ?_ _
      exact ⟨(), { m with state := s' }, run_changeState written, changes.contents,
        unchanged changes, by rw [changes.frame], rfl, rfl, rfl⟩
  | some key =>
      obtain ⟨s', written, changes⟩ :=
        m.state.writeProperty_changes u.labels key v.withoutAttributes
      let m₁ : Machine σ := { m with
        events := m.events ++ [.propertyWrite index u.labels key] }
      refine .skip (rfl : _ = (Except.ok _, m₁)) (.thenReturn ?_ _)
      exact ⟨(), { m₁ with state := s' }, run_changeState (m := m₁) written, changes.contents,
        unchanged changes, by rw [changes.frame], rfl, rfl, Event.questions_append rfl _⟩

theorem run_newObject (result : Register) :
    let node : Node := ⟨index, block, .newObject result⟩
    (Ordinary.newObject setting node).Yields m (m.state.contents.step setting.program node)
      (Ends setting.program node m) := by
  intro node
  refine ⟨.pending, _, rfl, rfl, ?_, fun _ _ _ found => .inr (facts_write found), rfl, rfl, rfl,
    rfl⟩
  refine (State.contents_writeRegister _ _ _).trans ?_
  rw [← State.contents_allocate]
  rfl

theorem run_call (operands : CallOperands) :
    let node : Node := ⟨index, block, .call operands⟩
    (Ordinary.call setting node).Yields m (m.state.contents.step setting.program node)
      (Ends setting.program node m) := by
  intro node
  refine .read (.readRegisters m operands.arguments) fun _ _ => ?_
  obtain ⟨result, base, property, function, arguments, constructor⟩ := operands
  -- A constructor makes an object before the result is written.
  cases constructor with
  | false =>
      cases result with
      | none =>
          exact ⟨.pending, m, rfl, rfl, rfl, fun _ _ _ found => .inr ⟨nofun, found⟩, rfl, rfl, rfl,
            rfl⟩
      | some r =>
          exact ⟨.pending, _, rfl, rfl, State.contents_writeRegister _ _ _,
            fun _ _ _ found => .inr (facts_write found), rfl, rfl, rfl, rfl⟩
  | true =>
      have allocated := State.contents_allocate m.state node.label
      cases result with
      | none =>
          exact ⟨.pending, _, rfl, rfl, allocated, fun _ _ _ found => .inr ⟨nofun, found⟩, rfl, rfl,
            rfl, rfl⟩
      | some r =>
          refine ⟨.pending, _, rfl, rfl, ?_, fun _ _ _ found => .inr (facts_write found), rfl, rfl,
            rfl, rfl⟩
          refine (State.contents_writeRegister _ _ _).trans ?_
          show Contents.write (State.contents (State.newObject _ node.label _)) _ _ = _
          rw [allocated]
          rfl

theorem run_binaryOperator (result : Register) (op : BinaryOperator) (lhs rhs : Register) :
    let node : Node := ⟨index, block, .binaryOperator result op lhs rhs⟩
    (Ordinary.binaryOperator setting node).Yields m (m.state.contents.step setting.program node)
      (Ends setting.program node m) := by
  refine .read (.readRegister m lhs) fun _ _ => .read (.readRegister m rhs) fun _ _ => ?_
  exact ⟨.pending, _, rfl, rfl, State.contents_writeRegister _ _ _,
    fun _ _ _ found => .inr (facts_write found), rfl, rfl, rfl, rfl⟩

/-- An ordinary rule is a step on the contents. -/
theorem run_rule (setting : Setting σ) (node : Node) (m : Machine σ) :
    (rule node.kind setting node).Yields m (m.state.contents.step setting.program node)
      (Ends setting.program node m) := by
  obtain ⟨index, block, operation⟩ := node
  cases operation with
  | constant result value => exact run_constant result value
  | readVariable result name => exact run_readVariable result name
  | writeVariable name r => exact run_writeVariable name r
  | readProperty result base property => exact run_readProperty result base property
  | writeProperty base property r => exact run_writeProperty base property r
  | newObject result => exact run_newObject result
  | call operands => exact run_call operands
  | binaryOperator result op lhs rhs => exact run_binaryOperator result op lhs rhs
  | foreignMarker _ | nop =>
      exact ⟨.pending, m, rfl, rfl, rfl, fun _ _ _ found => .inr ⟨nofun, found⟩, rfl, rfl, rfl, rfl⟩

end Ordinary

/-! ### Dispatching -/

namespace Dispatcher

variable {σ : Type} {setting : Setting σ} {node : Node} {m m' : Machine σ}

theorem dispatch_base (setting : Setting σ) (node : Node) :
    (base : Dispatcher σ).dispatch setting node = Ordinary.rule node.kind setting node := by
  unfold dispatch
  rw [effective_base]

/-- A node that the ordinary rules run successfully has taken a step. -/
theorem of_dispatch_base {handover : Handover}
    (done : (base.dispatch setting node).run.run m = (.ok handover, m')) :
    handover = .pending ∧ ∃ c, m.state.contents.step setting.program node = .ok c ∧
      m.After setting.program node c m' := by
  rw [dispatch_base] at done
  have ends := Ordinary.run_rule setting node m
  unfold Transfer.Yields at ends
  cases stepped : m.state.contents.step setting.program node with
  | error e =>
      rw [stepped] at ends
      rw [show _ = (Except.error e, m) from ends] at done
      cases done
  | ok c =>
      rw [stepped] at ends
      obtain ⟨_, _, ran, pending, after⟩ := ends
      rw [ran] at done
      cases done
      exact ⟨pending, c, rfl, after⟩

end Dispatcher

end ScriptHeap
