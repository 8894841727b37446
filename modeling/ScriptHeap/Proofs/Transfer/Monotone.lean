import ScriptHeap.Proofs.Transfer.Order
import ScriptHeap.Host.ClassTable

/-!
# Monotonicity of the ordinary rules

An ordinary rule keeps the order of contents, with three exceptions. In all of them the rule is
surer of what it does in the greater contents:

- a write through one label replaces the old value, a write through no label keeps it;
- a value that is merely absent is no string, while the one string it may become is a known one;
- a variable without an object reads as `undefined`, whatever the object would hold.

`Contents.Aligned` says that a node meets none of them, and `Dispatcher.dispatch_below` that the
order is kept then. `Dispatcher.numberWrite_not_below` is a case of the first exception.
-/

namespace ScriptHeap

namespace Contents

/-! ### Nodes -/

/-- The register holds exactly one string. -/
def ExactAt (c : Contents) (r : Register) : Prop :=
  ∃ v s, c.registers r = some v ∧ v.exactString? = some s

/-- The register may hold an actual value: it is neither bottom nor merely absent. -/
def PresentAt (c : Contents) (r : Register) : Prop :=
  ∃ v, c.registers r = some v ∧ v.maybePresent = true

/-- A name that is known in the second contents may be an actual value in the first. -/
def NamePresent (a b : Contents) : PropertyName → Prop
  | .fixed _ => True
  | .dynamic r => b.ExactAt r → a.PresentAt r

/-- The object of a variable is there in the first contents if it is in the second. -/
def HoldsVariable (program : FlowGraph) (a b : Contents) (name : String) : Prop :=
  ∀ f, program.function a.function = .ok f →
    (b.shapes (f.variableLabel name)).isSome → (a.shapes (f.variableLabel name)).isSome

/-- The node is not surer of what it does in the second contents than in the first. -/
def Aligned (program : FlowGraph) (node : Node) (a b : Contents) : Prop :=
  match node.operation with
  | .readVariable _ name => HoldsVariable program a b name
  | .writeVariable name _ => HoldsVariable program a b name
  | .readProperty _ _ property => NamePresent a b property
  | .writeProperty base property _ =>
      NamePresent a b property ∧
        ∀ u v key, a.registers base = some u → b.registers base = some v →
          b.key? property = .ok (some key) → v.labels.size = 1 → u.maybeObject = true
  | .binaryOperator _ .add lhs rhs =>
      b.ExactAt lhs → b.ExactAt rhs → a.PresentAt lhs ∧ a.PresentAt rhs
  | _ => True

/-- Every label in a register has an object. -/
def Allocated (c : Contents) : Prop :=
  ∀ r v, c.registers r = some v → ∀ label ∈ v.labels, (c.shapes label).isSome

section

variable {program : FlowGraph} {node : Node} {a b a' b' : Contents} {α β : Type}

/-- Contents of one function look it up with one result. -/
theorem function_both (same : a.function = b.function) {g h : Function → Except Error α} {x y : α}
    (done : (program.function a.function >>= g) = .ok x)
    (done' : (program.function b.function >>= h) = .ok y) :
    ∃ f, program.function a.function = .ok f ∧ g f = .ok x ∧ h f = .ok y := by
  obtain ⟨f, known, rest⟩ := of_bind_eq_ok done
  rw [← same, known] at done'
  exact ⟨f, known, rest, done'⟩

variable (below : a.Below b) (plain : a.Each Value.Plain) (plain' : b.Each Value.Plain)

include below plain plain'

/-- What a register holds in both contents. -/
theorem Below.register_both {r : Register} {g h : Value → Except Error α} {x y : α}
    (done : (a.readRegister r >>= g) = .ok x) (done' : (b.readRegister r >>= h) = .ok y) :
    ∃ v w, a.registers r = some v ∧ b.registers r = some w ∧ v.Plain ∧ w.Plain ∧ w.Absorbs v ∧
      g v = .ok x ∧ h w = .ok y := by
  obtain ⟨v, held, rest⟩ := of_bind_eq_ok done
  obtain ⟨w, held', rest'⟩ := of_bind_eq_ok done'
  replace held := registers_of_readRegister held
  replace held' := registers_of_readRegister held'
  exact ⟨v, w, held, held', plain.registers _ _ held, plain'.registers _ _ held',
    below.absorbs held held', rest, rest'⟩

theorem Below.key? {property : PropertyName} (present : NamePresent a b property)
    {key key' : Option Key} (known : a.key? property = .ok key)
    (known' : b.key? property = .ok key') : key' = none ∨ key = key' := by
  cases property with
  | fixed name =>
      cases known
      cases known'
      exact .inr rfl
  | dynamic r =>
      obtain ⟨v, w, held, held', formed, formed', above, done, done'⟩ :=
        below.register_both plain plain' known known'
      cases done
      cases done'
      cases exactly : w.exactString? with
      | none => exact .inl rfl
      | some s =>
          obtain ⟨other, found, maybe⟩ := present ⟨w, s, held', exactly⟩
          rw [held] at found
          cases found
          right
          rw [formed'.exactString?_of_absorbs formed above exactly maybe]

/-- A step keeps the order where the node is aligned. -/
theorem Below.step (same : a.function = b.function) (allocated : a.Allocated)
    (aligned : Aligned program node a b) (stepped : a.step program node = .ok a')
    (stepped' : b.step program node = .ok b') : a'.Below b' := by
  obtain ⟨index, block, operation⟩ := node
  cases operation with
  | constant result value =>
      cases stepped
      cases stepped'
      exact below.write? (some result) value.value_plain.absorbs_self
  | readVariable result name =>
      obtain ⟨f, known, done, done'⟩ := function_both same stepped stepped'
      cases done
      cases done'
      exact below.write? (some result) (below.readVariable plain plain' (aligned f known))
  | writeVariable name r =>
      obtain ⟨v, w, -, -, formed, formed', above, rest, rest'⟩ :=
        below.register_both plain plain' stepped stepped'
      obtain ⟨f, known, done, done'⟩ := function_both same rest rest'
      cases done
      cases done'
      rw [Value.collapse_of_whole formed.withoutAttributes.whole,
        Value.collapse_of_whole formed'.withoutAttributes.whole]
      exact below.writeVariable plain plain' (aligned f known) formed.withoutAttributes
        formed'.withoutAttributes (formed'.absorbs_withoutAttributes formed above)
  | readProperty result base property =>
      obtain ⟨u, u', -, -, formed, formed', above, rest, rest'⟩ :=
        below.register_both plain plain' stepped stepped'
      obtain ⟨key, known, done⟩ := of_bind_eq_ok rest
      obtain ⟨key', known', done'⟩ := of_bind_eq_ok rest'
      cases done
      cases done'
      exact below.write? result (below.readThrough (below.key? plain plain' aligned known known')
        plain plain' formed formed' above)
  | writeProperty base property r =>
      obtain ⟨u, u', held, held', _, object', objects, rest, rest'⟩ :=
        below.register_both plain plain' stepped stepped'
      obtain ⟨v, v', -, -, formed, formed', above, rest, rest'⟩ :=
        below.register_both plain plain' rest rest'
      obtain ⟨key, known, done⟩ := of_bind_eq_ok rest
      obtain ⟨key', known', done'⟩ := of_bind_eq_ok rest'
      cases done
      cases done'
      obtain ⟨present, sure⟩ := aligned
      refine below.writeThrough plain plain' formed.withoutAttributes formed'.withoutAttributes
        (formed'.absorbs_withoutAttributes formed above)
        (objects.labels object'.formed object'.known)
        (below.key? plain plain' present known known') (allocated base u held) ?_
      rintro name rfl one
      have some := sure u u' name held held' known' one
      simpa [Value.maybeObject, ← Bool.not_eq_true, FinSet.isEmpty_eq_true_iff] using some
  | newObject result =>
      cases stepped
      cases stepped'
      exact (below.allocate plain plain' _).write? (some result)
        (Value.Plain.object _).absorbs_self
  | call operands =>
      obtain ⟨_, _, done⟩ := of_bind_eq_ok stepped
      obtain ⟨_, _, done'⟩ := of_bind_eq_ok stepped'
      cases done
      cases done'
      split
      · exact (below.allocate plain plain' _).write? operands.result
          (Value.Plain.object _).absorbs_self
      · exact below.write? operands.result (Value.Plain.ofFlags rfl).absorbs_self
  | binaryOperator result op lhs rhs =>
      obtain ⟨l, l', left, left', plainLeft, plainLeft', above, rest, rest'⟩ :=
        below.register_both plain plain' stepped stepped'
      obtain ⟨r, r', right, right', plainRight, plainRight', aboveRight, done, done'⟩ :=
        below.register_both plain plain' rest rest'
      cases done
      cases done'
      refine below.write? (some result) (Value.Plain.absorbs_operator plainLeft plainRight plainLeft'
        plainRight' above aboveRight ?_)
      rintro rfl s t known known'
      obtain ⟨⟨v, found, present⟩, w, found', present'⟩ :=
        aligned ⟨l', s, left', known⟩ ⟨r', t, right', known'⟩
      rw [left] at found
      rw [right] at found'
      cases found
      cases found'
      exact ⟨present, present'⟩
  | foreignMarker _ | nop =>
      cases stepped
      cases stepped'
      exact below

end

end Contents

/-! ### Dispatching -/

/-- The dispatcher without layers keeps the order of contents at a node that is aligned. -/
theorem Dispatcher.dispatch_below {σ : Type} {setting : Setting σ} {node : Node}
    {m₁ m₂ m₁' m₂' : Machine σ} {handover₁ handover₂ : Handover}
    (below : m₁.state.contents.Below m₂.state.contents)
    (function : m₁.state.function = m₂.state.function)
    (plain₁ : m₁.state.contents.Each Value.Plain) (plain₂ : m₂.state.contents.Each Value.Plain)
    (allocated : m₁.state.contents.Allocated)
    (aligned : Contents.Aligned setting.program node m₁.state.contents m₂.state.contents)
    (done₁ : (base.dispatch setting node).run.run m₁ = (.ok handover₁, m₁'))
    (done₂ : (base.dispatch setting node).run.run m₂ = (.ok handover₂, m₂')) :
    m₁'.state.contents.Below m₂'.state.contents := by
  obtain ⟨-, c₁, stepped₁, after₁⟩ := of_dispatch_base done₁
  obtain ⟨-, c₂, stepped₂, after₂⟩ := of_dispatch_base done₂
  rw [after₁.contents, after₂.contents]
  exact below.step plain₁ plain₂ function allocated aligned stepped₁ stepped₂

/-! A write through one label against one through none. -/

namespace Contents

/-- An object with a number under `f`, beside the global object. -/
def numbered : Contents where
  registers := fun _ => none
  shapes := fun label =>
    if label = ⟨7, .object, none⟩ then
      some (Shape.absentModified.set (.name "f") .anyNumber)
    else if label = .global then some .absentModified else none
  function := 0

/-- The base of a write to `f` is in the first register, and `undefined` in the second. -/
def beforeWrite (target : Value) : Contents :=
  (numbered.write 0 target).write 1 .undefined

/-- The value may be something, and is plain. -/
def Proper (v : Value) : Prop := v.Plain ∧ v.isNone = false

theorem numbered_each : numbered.Each Proper := by
  refine ⟨nofun, ?_⟩
  intro label shape found
  have absent : Shape.absentModified.Each Proper := by
    intro slot
    cases slot with
    | property key =>
        show Proper (Shape.absentModified.default key)
        unfold Shape.default
        split <;> exact ⟨.ofFlags rfl, rfl⟩
    | defaultNumeric | defaultOther | internalValue | internalPrototype =>
        exact ⟨.ofFlags rfl, rfl⟩
  unfold numbered at found
  dsimp only at found
  split at found
  · cases found
    exact absent.set _ ⟨.ofFlags rfl, rfl⟩
  · split at found
    · cases found
      exact absent
    · cases found

theorem beforeWrite_each {target : Value} (proper : Proper target) :
    (beforeWrite target).Each Proper := by
  refine ⟨?_, numbered_each.shapes⟩
  intro r v found
  have held : (if r = 1 then some .undefined else if r = 0 then some target else none) = some v :=
    found
  split at held
  · cases held
    exact ⟨.ofFlags rfl, rfl⟩
  · split at held
    · cases held
      exact proper
    · cases held

theorem Each.imp {P Q : Value → Prop} {c : Contents} (each : c.Each P)
    (implied : ∀ {v}, P v → Q v) : c.Each Q :=
  ⟨fun r v held => implied (each.registers r v held),
    fun label shape held slot => implied (each.shapes label shape held slot)⟩

theorem beforeWrite_below {v w : Value} (above : w.Absorbs v) :
    (beforeWrite v).Below (beforeWrite w) := by
  have start : numbered.Below numbered := by
    refine ⟨nofun, fun label s held => ⟨s, held, ?_⟩⟩
    exact .refl fun slot => (numbered_each.shapes label s held slot).1
  exact (start.write? (some 0) above).write? (some 1) rfl

theorem beforeWrite_allocated {target : Value}
    (only : ∀ label ∈ target.labels, label = ⟨7, .object, none⟩) :
    (beforeWrite target).Allocated := by
  intro r v found label member
  have held : (if r = 1 then some .undefined else if r = 0 then some target else none) = some v :=
    found
  split at held
  · cases held
    cases member
  · split at held
    · cases held
      rw [only label member]
      rfl
    · cases held

end Contents

namespace Dispatcher

/-- A program without nodes, and a table without classes. -/
def bareSetting : Setting ClassTable := ⟨ClassTable.host, .initial, {}⟩

/-- The write `v0.f = v1`. -/
def numberWrite : Node := ⟨0, 0, .writeProperty 0 (.fixed "f") 1⟩

/-- A machine that is about to write. -/
def beforeWrite (target : Value) : Machine ClassTable :=
  let number : HeapObject := .ofShape (Shape.absentModified.set (.name "f") .anyNumber)
  let heap : FinMap Label Cell :=
    (FinMap.empty.insert .global ⟨.ofShape .absentModified, .owned⟩).insert ⟨7, .object, none⟩
      ⟨number, .owned⟩
  let s : State := ⟨∅, heap, .main, 0, ∅, ∅, false⟩
  ⟨⟨.initial, .empty, []⟩, (s.writeRegister 0 target).writeRegister 1 .undefined, []⟩

theorem contents_beforeWrite (target : Value) :
    (beforeWrite target).state.contents = Contents.beforeWrite target := by
  unfold beforeWrite Contents.beforeWrite
  dsimp only
  rw [State.contents_writeRegister, State.contents_writeRegister]
  congr 2
  refine Contents.ext rfl ?_ rfl
  funext label
  unfold State.contents State.shapes State.object? Contents.numbered
  simp only [FinMap.get?_insert]
  split
  · rfl
  · split <;> rfl

theorem run_numberWrite (target : Value) :
    ∃ handover m, (base.dispatch bareSetting numberWrite).run.run (beforeWrite target) =
        (.ok handover, m) ∧
      m.state.contents = (Contents.beforeWrite target).writeProperty target.labels (.name "f")
        Value.undefined.withoutAttributes := by
  have ends := Ordinary.run_rule bareSetting numberWrite (beforeWrite target)
  rw [contents_beforeWrite] at ends
  obtain ⟨handover, m, ran, -, after⟩ := ends
  exact ⟨handover, m, (dispatch_base _ _).symm ▸ ran, after.contents⟩

/-- Where the base may be `null` only, the property stays a number. Where it may be the object as
    well, the property becomes `undefined`. -/
theorem numberWrite_not_below :
    ∃ (m₁ m₂ m₁' m₂' : Machine ClassTable) (handover₁ handover₂ : Handover),
      m₁.state.contents.Below m₂.state.contents ∧ m₁.state.function = m₂.state.function ∧
      m₁.state.contents.Each Contents.Proper ∧ m₂.state.contents.Each Contents.Proper ∧
      m₁.state.contents.Allocated ∧ m₂.state.contents.Allocated ∧
      (base.dispatch bareSetting numberWrite).run.run m₁ = (.ok handover₁, m₁') ∧
      (base.dispatch bareSetting numberWrite).run.run m₂ = (.ok handover₂, m₂') ∧
      ¬ m₁'.state.contents.Below m₂'.state.contents := by
  let both : Value := Value.null.join (.object ⟨7, .object, none⟩)
  obtain ⟨handover₁, m₁', ran₁, contents₁⟩ := run_numberWrite .null
  obtain ⟨handover₂, m₂', ran₂, contents₂⟩ := run_numberWrite both
  refine ⟨beforeWrite .null, beforeWrite both, m₁', m₂', handover₁, handover₂, ?_, rfl, ?_, ?_, ?_,
    ?_, ran₁, ran₂, ?_⟩
  · rw [contents_beforeWrite, contents_beforeWrite]
    exact Contents.beforeWrite_below (by decide)
  · rw [contents_beforeWrite]
    exact Contents.beforeWrite_each ⟨.ofFlags rfl, rfl⟩
  · rw [contents_beforeWrite]
    exact Contents.beforeWrite_each ⟨.join (.ofFlags rfl) (.object _), rfl⟩
  · rw [contents_beforeWrite]
    exact Contents.beforeWrite_allocated nofun
  · rw [contents_beforeWrite]
    exact Contents.beforeWrite_allocated fun label member => FinSet.mem_singleton.mp member
  · intro below
    have covered := below.shapes ⟨7, .object, none⟩
    rw [contents₁, contents₂] at covered
    obtain ⟨t, written, covers⟩ := covered _ rfl
    cases written
    exact absurd (covers.absorbs (.property (.name "f"))) (by decide)

/-- Where the base may be the object both times, the write replaces the number both times. -/
theorem numberWrite_below :
    ∃ (m₁' m₂' : Machine ClassTable) (handover₁ handover₂ : Handover),
      (base.dispatch bareSetting numberWrite).run.run
        (beforeWrite (.object ⟨7, .object, none⟩)) = (.ok handover₁, m₁') ∧
      (base.dispatch bareSetting numberWrite).run.run
        (beforeWrite (Value.null.join (.object ⟨7, .object, none⟩))) = (.ok handover₂, m₂') ∧
      m₁'.state.contents.Below m₂'.state.contents := by
  let object : Value := .object ⟨7, .object, none⟩
  let both : Value := Value.null.join object
  obtain ⟨handover₁, m₁', ran₁, -⟩ := run_numberWrite object
  obtain ⟨handover₂, m₂', ran₂, -⟩ := run_numberWrite both
  refine ⟨m₁', m₂', handover₁, handover₂, ran₁, ran₂, ?_⟩
  refine dispatch_below ?_ ?_ ?_ ?_ ?_ ?_ ran₁ ran₂
  · rw [contents_beforeWrite, contents_beforeWrite]
    exact Contents.beforeWrite_below (by decide)
  · rfl
  · rw [contents_beforeWrite]
    exact (Contents.beforeWrite_each ⟨.object _, rfl⟩).imp And.left
  · rw [contents_beforeWrite]
    exact (Contents.beforeWrite_each ⟨.join (.ofFlags rfl) (.object _), rfl⟩).imp And.left
  · rw [contents_beforeWrite]
    exact Contents.beforeWrite_allocated fun label member => FinSet.mem_singleton.mp member
  · rw [contents_beforeWrite, contents_beforeWrite]
    refine ⟨trivial, ?_⟩
    rintro u v key ⟨⟩ - - -
    rfl

end Dispatcher

end ScriptHeap
