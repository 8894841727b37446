import ScriptHeap.Proofs.Analysis.PostFixpoint
import ScriptHeap.Proofs.Transfer.Values
import ScriptHeap.Proofs.Value.Plain

/-!
# What becomes of a fact on a property

A node notes that a register equals a property when it reads the property into the register or
writes it from the register. A later write to the register takes the fact away. A later write to the
property does not: from then on the fact may be false.

`Ordinary.mustEquals_iff` says what a fact of a state means: some node of the run noted it, the
register has kept its value since, and the fact is true as long as the property reads as it did
then, which it does unless a node touches it (`Contents.Touches`).
-/

namespace ScriptHeap

/-- A value without what belongs to the slot that holds it, and without its parts. -/
def Value.bare (v : Value) : Value :=
  v.collapse.notAbsent.notModified.withoutAttributes

namespace Contents

/-- What a property reads as, if its label has an object. -/
def property? (c : Contents) (label : Label) (key : Key) : Option Value :=
  (c.shapes label).map fun shape => State.readAs (shape.get key)

/-- A register equals a property. -/
def Equals (c : Contents) (r : Register) (label : Label) (key : Key) : Prop :=
  ∃ v, c.registers r = some v ∧ c.property? label key = some v.bare

/-- A read through a value gives what the property reads as: the label has an object, the property
    is not split, and the primitives among the value add nothing. An unknown property absorbs itself
    only if it has no other flag. -/
def ReadsExactly (c : Contents) (base : Value) (label : Label) (key : Key) : Prop :=
  ∃ v, c.property? label key = some v ∧ v.parts = [] ∧ v.Absorbs v ∧
    (base.maybePrimitive = true → v.Absorbs .anyPrimitive)

/-- The node writes the property, or makes an object of its label. -/
inductive Touches (program : FlowGraph) (c : Contents) (node : Node) (label : Label) (key : Key) :
    Prop where
  | variableWrite {name : String} {r : Register} {f : Function}
      (operation : node.operation = .writeVariable name r)
      (function : program.function c.function = .ok f) (holder : label = f.variableLabel name)
      (named : key = .name name)
  | argumentWrite {name : String} {r : Register} {f : Function} {index : Nat}
      (operation : node.operation = .writeVariable name r)
      (function : program.function c.function = .ok f) (holder : label = .arguments f.index)
      (parameter : f.parameterIndex? name = some index) (named : key = .name (toString index))
  | propertyWrite {base r : Register} {property : PropertyName} {u : Value}
      (operation : node.operation = .writeProperty base property r)
      (object : c.registers base = some u) (holder : label ∈ u.labels)
      (named : ∀ known, c.key? property = .ok (some known) → key = known)
  | newObject {result : Register} (operation : node.operation = .newObject result)
      (holder : label = node.label)
  | construct {operands : CallOperands} (operation : node.operation = .call operands)
      (constructor : operands.constructor = true) (holder : label = node.label)

variable {program : FlowGraph} {node : Node} {c c' : Contents} {label : Label} {key : Key}

theorem Notes.kind {r : Register} (notes : c.Notes program node r label key) :
    node.operation.kind = .writeVariable ∨ node.operation.kind = .readProperty := by
  cases notes with
  | written operation =>
      rw [operation]
      exact .inl rfl
  | read operation =>
      rw [operation]
      exact .inr rfl

theorem Touches.kind (touches : c.Touches program node label key) :
    node.operation.kind ∈
      [OperationKind.writeVariable, .writeProperty, .newObject, .call] := by
  cases touches with
  | variableWrite operation | argumentWrite operation | propertyWrite operation
  | newObject operation | construct operation =>
      rw [operation]
      simp [Operation.kind]

/-! ### Steps that leave a property alone -/

theorem change_property? {labels : LabelSet} {f : Option Shape → Option Shape}
    (same : label ∈ labels → ∀ shape, c.shapes label = some shape →
      ∃ shape', f (some shape) = some shape' ∧ shape'.get key = shape.get key)
    (present : (c.shapes label).isSome = true) :
    (c.change labels f).property? label key = c.property? label key := by
  unfold property? change
  by_cases member : label ∈ labels
  · obtain ⟨shape, found⟩ := Option.isSome_iff_exists.mp present
    obtain ⟨shape', changed, sameKey⟩ := same member shape found
    simp [member, found, changed, sameKey]
  · simp [member]

theorem writeProperty_property? {labels : LabelSet} {written : Key} {v : Value}
    (apart : label ∈ labels → key ≠ written) (present : (c.shapes label).isSome = true) :
    (c.writeProperty labels written v).property? label key = c.property? label key := by
  refine change_property? (fun member shape _ => ⟨_, rfl, ?_⟩) present
  rw [Option.getD_some, Shape.get_store]
  exact if_neg (apart member)

theorem isSome_writeProperty {labels : LabelSet} {written : Key} {v : Value}
    (present : (c.shapes label).isSome = true) :
    ((c.writeProperty labels written v).shapes label).isSome = true := by
  unfold writeProperty change
  dsimp only
  split
  · rfl
  · exact present

theorem writeVariable_property? {f : Function} {name : String} {v : Value}
    (notVariable : label = f.variableLabel name → key ≠ .name name)
    (notArgument : label = .arguments f.index → ∀ index, f.parameterIndex? name = some index →
      key ≠ .name (toString index))
    (present : (c.shapes label).isSome = true) :
    (c.writeVariable f name v).property? label key = c.property? label key := by
  have first : (c.writeProperty (FinSet.singleton (f.variableLabel name)) (.name name) v).property?
      label key = c.property? label key :=
    writeProperty_property? (fun member => notVariable (FinSet.mem_singleton.mp member)) present
  rw [← first]
  unfold writeVariable writeArgument
  split
  · rfl
  · rename_i index parameter
    split
    · refine writeProperty_property? ?_ (isSome_writeProperty present)
      exact fun member => notArgument (FinSet.mem_singleton.mp member) index parameter
    · rfl

/-- A step that does not touch a property leaves what it reads as. -/
theorem Steps.property? (steps : Steps program node c c')
    (present : (c.shapes label).isSome = true) (untouched : ¬ Touches program c node label key) :
    c'.property? label key = c.property? label key := by
  have allocated : label ≠ node.label →
      (c.allocate node.label).property? label key = c.property? label key := by
    intro other
    refine change_property? (fun member => ?_) present
    exact absurd (FinSet.mem_singleton.mp member) other
  cases steps with
  | constant | readVariable | binaryOperator | idle => rfl
  | readProperty | call => simp [Contents.property?]
  | writeVariable operation value function =>
      refine writeVariable_property? ?_ ?_ present
      · exact fun holder named => untouched (.variableWrite operation function holder named)
      · exact fun holder index parameter named =>
          untouched (.argumentWrite operation function holder parameter named)
  | @writeProperty _ _ _ u v key' operation object value name =>
      cases key' with
      | some known =>
          refine writeProperty_property? (fun member same => untouched ?_) present
          refine .propertyWrite operation object member fun other found => ?_
          rw [name] at found
          cases found
          exact same
      | none =>
          refine change_property? (fun member => absurd ?_ untouched) present
          refine .propertyWrite operation object member fun other found => ?_
          rw [name] at found
          cases found
  | newObject operation => exact allocated fun holder => untouched (.newObject operation holder)
  | construct operation constructor =>
      refine Eq.trans ?_ (allocated fun holder =>
        untouched (.construct operation constructor holder))
      simp [Contents.property?]

/-- Objects stay in the heap. -/
theorem Steps.isSome (steps : Steps program node c c') (present : (c.shapes label).isSome = true) :
    (c'.shapes label).isSome = true := by
  have changed : ∀ {labels : LabelSet} {f : Option Shape → Option Shape},
      (∀ shape, (f (some shape)).isSome = true) →
      ((c.change labels f).shapes label).isSome = true := by
    intro labels f keeps
    obtain ⟨shape, found⟩ := Option.isSome_iff_exists.mp present
    unfold change
    dsimp only
    split
    · rw [found]
      exact keeps shape
    · exact present
  cases steps with
  | constant | readVariable | binaryOperator | idle => exact present
  | readProperty | call => simpa using present
  | writeVariable =>
      have first : ∀ {labels key v}, ((c.writeProperty labels key v).shapes label).isSome = true :=
        isSome_writeProperty present
      unfold Contents.writeVariable writeArgument
      split
      · exact first
      · split
        · exact isSome_writeProperty first
        · exact first
  | @writeProperty _ _ _ _ _ key _ _ _ _ =>
      cases key with
      | some key => exact isSome_writeProperty present
      | none => exact changed (f := Option.map _) fun _ => rfl
  | newObject =>
      rw [shapes_write]
      exact changed fun _ => rfl
  | construct =>
      rw [shapes_write?]
      exact changed fun _ => rfl

/-! ### Noting a fact -/

theorem clean_join {v w : Value} (left : v.Clean) (right : w.Clean) : (v.join w).Clean := by
  cases unknownOne : v.isUnknown || w.isUnknown with
  | true =>
      rw [Value.join_unknown unknownOne]
      exact ⟨rfl, rfl, rfl, rfl, rfl⟩
  | false =>
      obtain ⟨knownLeft, knownRight⟩ := Bool.or_eq_false_iff.mp unknownOne
      by_cases same : v = w
      · rw [← same, Value.join_same knownLeft]
        exact left
      · rw [Value.join_of_ne knownLeft knownRight same]
        simp_all [Value.Clean, Flags.join]

theorem clean_readAs (v : Value) : (State.readAs v).Clean := by
  have present : v.notAbsent.notModified.withoutAttributes.Clean := ⟨rfl, rfl, rfl, rfl, rfl⟩
  unfold State.readAs
  dsimp only
  split
  · exact clean_join present ⟨rfl, rfl, rfl, rfl, rfl⟩
  · exact present

theorem bare_of_clean {v : Value} (clean : v.Clean) : v.bare = v.collapse := by
  obtain ⟨flags, string, labels, parts⟩ := v
  obtain ⟨absent, modified, dontDelete, dontEnum, readOnly⟩ := clean
  cases flags
  simp_all [Value.bare, Value.collapse, Value.notAbsent, Value.notModified,
    Value.withoutAttributes, Flags.withoutAttributes]

theorem Results.clean {v : Value} (result : Results program node c v) : v.Clean := by
  cases result with
  | @constant _ value operation =>
      cases value with
      | boolean b => cases b <;> exact ⟨rfl, rfl, rfl, rfl, rfl⟩
      | undefined | null | number | string => exact ⟨rfl, rfl, rfl, rfl, rfl⟩
  | readVariable => exact clean_readAs _
  | @readProperty _ _ u _ _ _ =>
      unfold readThrough
      dsimp only
      split
      · exact clean_join (clean_readAs _) ⟨rfl, rfl, rfl, rfl, rfl⟩
      · exact clean_readAs _
  | object | anyPrimitive => exact ⟨rfl, rfl, rfl, rfl, rfl⟩
  | @operator _ _ op u v _ _ =>
      cases op with
      | add =>
          show (BinaryOperator.sum u v).Clean
          unfold BinaryOperator.sum
          split
          · exact ⟨rfl, rfl, rfl, rfl, rfl⟩
          · split <;> exact ⟨rfl, rfl, rfl, rfl, rfl⟩
      | sub | mul | div | eq | strictEq | lt => exact ⟨rfl, rfl, rfl, rfl, rfl⟩

theorem Steps.clean (steps : Steps program node c c')
    (clean : Lookup.All Value.Clean c.registers) : Lookup.All Value.Clean c'.registers := by
  intro r v found
  rcases steps.register found with kept | result
  · exact clean r v kept
  · exact result.clean

/-- What a variable reads as right after it was written. -/
theorem property?_writeVariable (c : Contents) (f : Function) (name : String) {v : Value}
    (clean : v.Clean) :
    (c.writeVariable f name v.withoutAttributes.collapse).property? (f.variableLabel name)
      (.name name) = some v.bare := by
  have written : (c.writeProperty (FinSet.singleton (f.variableLabel name)) (.name name)
      v.withoutAttributes.collapse).shapes (f.variableLabel name) =
      some (((c.shapes (f.variableLabel name)).getD .absentModified).store true (.name name)
        v.withoutAttributes.collapse.joinModified) :=
    if_pos (FinSet.mem_singleton.mpr rfl)
  have reads : State.readAs v.withoutAttributes.collapse.joinModified = v.bare := by
    unfold State.readAs
    exact if_neg (by simp [Value.maybeAbsent, Value.joinModified, Value.collapse,
      Value.withoutAttributes, Flags.withoutAttributes, clean.1])
  have first : (c.writeProperty (FinSet.singleton (f.variableLabel name)) (.name name)
      v.withoutAttributes.collapse).property? (f.variableLabel name) (.name name) =
      some v.bare := by
    unfold property?
    rw [written, Option.map_some, Shape.get_store, if_pos rfl, if_pos rfl, reads]
  have apart : f.variableLabel name ≠ .arguments f.index := by
    unfold Function.variableLabel
    split <;> simp [Label.activation, Label.arguments, Label.global]
  rw [← first]
  unfold writeVariable writeArgument
  split
  · rfl
  · split
    · refine writeProperty_property? ?_ (by rw [written]; rfl)
      exact fun member => absurd (FinSet.mem_singleton.mp member) apart
    · rfl

theorem isUnknown_readAs (v : Value) : (State.readAs v).isUnknown = v.isUnknown := by
  have present : v.notAbsent.notModified.withoutAttributes.isUnknown = v.isUnknown := rfl
  unfold State.readAs
  dsimp only
  split
  · rw [Value.isUnknown_join, present]
    exact Bool.or_false _
  · exact present

/-- Joining to a value something that is not split gives back the value only if it absorbs it. -/
theorem collapse_join_eq_iff {v w : Value} (whole : w.parts = []) :
    (v.join w).collapse = v ↔ v.parts = [] ∧ v.Absorbs w := by
  constructor
  · intro same
    have parts : v.parts = [] := by
      rw [← same]
      rfl
    rw [Value.collapse_of_whole (Value.parts_join parts whole)] at same
    exact ⟨parts, same⟩
  · rintro ⟨parts, absorbed⟩
    rw [absorbed, Value.collapse_of_whole parts]

/-- A read through one label gives what the property reads as, provided that this is not split and
    has nothing that a read would add or drop. -/
theorem bare_readThrough {u : Value} {shape : Shape} (only : u.labels.toList = [label])
    (found : c.shapes label = some shape) (formed : shape.WellFormed) :
    (c.readThrough u (some key)).bare = State.readAs (shape.get key) ↔
      (State.readAs (shape.get key)).parts = [] ∧
      (State.readAs (shape.get key)).Absorbs (State.readAs (shape.get key)) ∧
      (u.maybePrimitive = true → (State.readAs (shape.get key)).Absorbs .anyPrimitive) := by
  have read : c.readProperty u.labels key = Value.none.join (shape.get key) := by
    simp [readProperty, shapesOf, only, found]
  have formedValue : (shape.get key).WellFormed := formed (.property key)
  have unknown := isUnknown_readAs (shape.get key)
  have clean := clean_readAs (shape.get key)
  unfold readThrough
  simp only [Option.elim_some, read]
  cases known : (shape.get key).isUnknown with
  | true =>
      -- What is read is unknown and nothing else.
      have value : (if u.maybePrimitive = true
          then (State.readAs (Value.none.join (shape.get key))).join .anyPrimitive
          else State.readAs (Value.none.join (shape.get key))).bare = .unknown := by
        rw [Value.join_unknown (a := .none) known]
        cases u.maybePrimitive <;> rfl
      rw [value]
      rw [known] at unknown
      generalize State.readAs (shape.get key) = v at unknown
      constructor
      · rintro rfl
        exact ⟨rfl, Value.join_unknown rfl, fun _ => Value.join_unknown rfl⟩
      · rintro ⟨_, own, _⟩
        exact (Value.join_unknown (by rw [unknown]; rfl)).symm.trans own
  | false =>
      rw [Value.none_join formedValue known]
      rw [known] at unknown
      generalize State.readAs (shape.get key) = v at unknown clean
      have own : v.Absorbs v := Value.join_same unknown
      cases u.maybePrimitive with
      | true =>
          rw [if_pos rfl, bare_of_clean (clean_join clean ⟨rfl, rfl, rfl, rfl, rfl⟩),
            collapse_join_eq_iff rfl]
          simp [own]
      | false =>
          rw [if_neg Bool.false_ne_true, bare_of_clean clean]
          constructor
          · intro same
            exact ⟨by rw [← same]; rfl, own, nofun⟩
          · rintro ⟨parts, _, _⟩
            exact Value.collapse_of_whole parts

/-- When a node notes a fact by writing a variable, it is true. When it notes it by reading, it is
    true exactly if what it reads is what the property reads as. -/
theorem Notes.equals_iff {r : Register} (notes : c.Notes program node r label key)
    (steps : Steps program node c c') (clean : Lookup.All Value.Clean c.registers)
    (formed : Lookup.All Shape.WellFormed c.shapes) :
    c'.Equals r label key ↔ ∀ base property u,
      node.operation = .readProperty (some r) base property → c.registers base = some u →
      c.ReadsExactly u label key := by
  cases notes with
  | @written name f noted function =>
      cases steps with
      | @writeVariable name' r' v f' operation value function' =>
          rw [noted] at operation
          cases operation
          obtain rfl : f = f' := Except.ok.inj (function.symm.trans function')
          have equals : (c.writeVariable f name v.withoutAttributes.collapse).Equals r
              (f.variableLabel name) (.name name) :=
            ⟨v, by rw [registers_writeVariable, value],
              property?_writeVariable c f name (clean r v value)⟩
          rw [noted]
          exact ⟨nofun, fun _ => equals⟩
      | _ => simp_all [Operation.kind]
  | @read base property u label key noted value name only =>
      cases steps with
      | @readProperty result base' property' u' key' operation value' name' =>
          rw [noted] at operation
          cases operation
          obtain rfl : u = u' := Option.some.inj (value.symm.trans value')
          obtain rfl : some key = key' := Except.ok.inj (name.symm.trans name')
          have held : (c.write? (some r) (c.readThrough u (some key))).Equals r label key ↔
              c.property? label key = some (c.readThrough u (some key)).bare := by
            constructor
            · rintro ⟨v, found, reads⟩
              rw [registers_write?, if_pos rfl] at found
              cases found
              exact reads
            · intro reads
              exact ⟨_, by rw [registers_write?, if_pos rfl], reads⟩
          have exactly : c.property? label key = some (c.readThrough u (some key)).bare ↔
              c.ReadsExactly u label key := by
            unfold ReadsExactly property?
            cases found : c.shapes label with
            | none => simp
            | some shape =>
                simp only [Option.map_some, Option.some.injEq, exists_eq_left']
                rw [← bare_readThrough only found (formed label shape found)]
                exact eq_comm
          rw [held, exactly]
          constructor
          · intro read base' property' u' operation value'
            rw [noted] at operation
            cases operation
            obtain rfl : u = u' := Option.some.inj (value.symm.trans value')
            exact read
          · intro each
            exact each base property u noted value
      | _ => simp_all [Operation.kind]

end Contents

/-! ### Runs of nodes -/

namespace State

/-- A state at the start of a function. -/
inductive Start : State → Prop where
  | initial (t : Interner) (function : Nat) (context : CallString) (copyOnWriteDisabled : Bool) :
      Start (State.initial t function context copyOnWriteDisabled).1
  | entered (t u : Interner) (function : Nat) (context : CallString) (copyOnWriteDisabled : Bool)
      (f : Function) {arguments : List Value} (formed : ∀ v ∈ arguments, v.WellFormed) :
      Start ((State.initial t function context copyOnWriteDisabled).1.enterFunction u f arguments).1

theorem Start.regular {s : State} (started : s.Start) :
    s.contents.Each Value.WellFormed ∧ Lookup.All Value.Clean s.contents.registers := by
  cases started with
  | initial t function context copyOnWriteDisabled =>
      have formed := initial_wellFormed t function context copyOnWriteDisabled
      exact ⟨⟨formed.registers, formed.shapes⟩, nofun⟩
  | entered t u function context copyOnWriteDisabled f formed =>
      have formed := enterFunction_wellFormed
        (initial_wellFormed t function context copyOnWriteDisabled) u f formed
      refine ⟨⟨formed.registers, formed.shapes⟩, ?_⟩
      unfold enterFunction
      split <;> nofun

theorem Start.noFact {s : State} (started : s.Start) (r : Register) :
    s.mustEquals.get? r = none := by
  cases started with
  | initial => rfl
  | entered =>
      unfold enterFunction
      split <;> rfl

end State

namespace Ordinary

variable {σ : Type} {setting : Setting σ}

/-- A node is run on a state successfully. -/
def Runs (setting : Setting σ) (s : State) (node : Node) (s' : State) : Prop :=
  ∃ (m m' : Machine σ) (handover : Handover), m.state = s ∧ m'.state = s' ∧
    (Dispatcher.base.dispatch setting node).run.run m = (.ok handover, m')

theorem Runs.steps {s s' : State} {node : Node} (ran : Runs setting s node s') :
    Contents.Steps setting.program node s.contents s'.contents := by
  obtain ⟨m, m', _, rfl, rfl, done⟩ := ran
  obtain ⟨_, c, stepped, after⟩ := Dispatcher.of_dispatch_base done
  rw [after.contents]
  exact Contents.steps_of_step stepped

/-- A fact after a node is noted by it, or was there before and is about another register. -/
theorem Runs.fact {s s' : State} {node : Node} (ran : Runs setting s node s') {r : Register}
    {label : Label} {key : Key} (fact : s'.mustEquals.get? r = some (label, key)) :
    s.contents.Notes setting.program node r label key ∨
      node.operation.result? ≠ some r ∧ s.mustEquals.get? r = some (label, key) := by
  obtain ⟨m, m', _, rfl, rfl, done⟩ := ran
  obtain ⟨_, c, _, after⟩ := Dispatcher.of_dispatch_base done
  exact after.facts r label key fact

/-- Nodes are run one after the other. The trail has each node with the state that it found. -/
inductive Path (setting : Setting σ) (start : State) : List (State × Node) → State → Prop where
  | start : Path setting start [] start
  | node {trail : List (State × Node)} {s s' : State} {node : Node}
      (before : Path setting start trail s) (ran : Runs setting s node s') :
      Path setting start (trail ++ [(s, node)]) s'

variable {start s : State} {trail : List (State × Node)} {r : Register} {label : Label} {key : Key}

/-- The values of a run are well formed, and no register has a flag of a slot. -/
theorem Path.regular (started : start.Start) (path : Path setting start trail s) :
    s.contents.Each Value.WellFormed ∧ Lookup.All Value.Clean s.contents.registers := by
  induction path with
  | start => exact started.regular
  | node _ ran ih =>
      exact ⟨ran.steps.each (Value.closed_wellFormed _) ih.1, ran.steps.clean ih.2⟩

/-- A fact was noted by a node of the run, and its register has kept its value since. -/
theorem Path.noted (none : start.mustEquals.get? r = none) (path : Path setting start trail s)
    (fact : s.mustEquals.get? r = some (label, key)) :
    ∃ before s₀ node s₁ after, trail = before ++ (s₀, node) :: after ∧
      Path setting start before s₀ ∧ Runs setting s₀ node s₁ ∧ Path setting s₁ after s ∧
      s₀.contents.Notes setting.program node r label key ∧
      s.registers.get? r = s₁.registers.get? r := by
  induction path with
  | start =>
      rw [none] at fact
      cases fact
  | @node trail s s' node path ran ih =>
      rcases ran.fact fact with notes | ⟨other, kept⟩
      · exact ⟨trail, s, node, s', [], rfl, path, ran, .start, notes, rfl⟩
      · obtain ⟨before, s₀, noting, s₁, after, rfl, path₀, ran₀, path₁, notes, same⟩ := ih kept
        refine ⟨before, s₀, noting, s₁, after ++ [(s, node)], by simp, path₀, ran₀,
          path₁.node ran, notes, ?_⟩
        exact (ran.steps.registers other).trans same

/-- A property that no node touches reads as at the start. -/
theorem Path.property? (path : Path setting start trail s)
    (present : (start.contents.shapes label).isSome = true)
    (untouched : ∀ entry ∈ trail,
      ¬ entry.1.contents.Touches setting.program entry.2 label key) :
    (s.contents.shapes label).isSome = true ∧
      s.contents.property? label key = start.contents.property? label key := by
  induction path with
  | start => exact ⟨present, rfl⟩
  | @node trail s s' node _ ran ih =>
      obtain ⟨stays, same⟩ := ih fun entry member =>
        untouched entry (List.mem_append_left _ member)
      have last := untouched (s, node) (List.mem_append_right _ List.mem_cons_self)
      exact ⟨ran.steps.isSome stays, (ran.steps.property? stays last).trans same⟩

/-- What a fact means. The node that noted it had written the variable from the register, and then
    the fact was true, or had read the property into it, and then it was true exactly if the
    read was an exact one. A fact that was true is true now exactly if the property reads as it did
    then, and this is so unless a later node has touched it. -/
theorem mustEquals_iff (started : start.Start) (path : Path setting start trail s)
    (fact : s.mustEquals.get? r = some (label, key)) :
    ∃ before s₀ node s₁ after, trail = before ++ (s₀, node) :: after ∧
      Path setting start before s₀ ∧ Runs setting s₀ node s₁ ∧ Path setting s₁ after s ∧
      s₀.contents.Notes setting.program node r label key ∧
      s.registers.get? r = s₁.registers.get? r ∧
      (s₁.contents.Equals r label key ↔ ∀ base property u,
        node.operation = .readProperty (some r) base property →
        s₀.registers.get? base = some u → s₀.contents.ReadsExactly u label key) ∧
      (s₁.contents.Equals r label key →
        (s.contents.Equals r label key ↔
          s.contents.property? label key = s₁.contents.property? label key) ∧
        ((∀ entry ∈ after, ¬ entry.1.contents.Touches setting.program entry.2 label key) →
          s.contents.Equals r label key)) := by
  obtain ⟨before, s₀, node, s₁, after, split, path₀, ran, path₁, notes, same⟩ :=
    path.noted (started.noFact r) fact
  obtain ⟨formed, clean⟩ := path₀.regular started
  have noted := notes.equals_iff ran.steps clean formed.shapes
  refine ⟨before, s₀, node, s₁, after, split, path₀, ran, path₁, notes, same, noted, ?_⟩
  rintro ⟨v, value, reads⟩
  have later : s.contents.Equals r label key ↔
      s.contents.property? label key = s₁.contents.property? label key := by
    rw [reads]
    constructor
    · rintro ⟨w, held, now⟩
      rw [show s.contents.registers r = some v from same.trans value] at held
      cases held
      exact now
    · exact fun now => ⟨v, same.trans value, now⟩
  refine ⟨later, fun untouched => later.mpr (path₁.property? ?_ untouched).2⟩
  exact Option.isSome_map.symm.trans (by rw [← Contents.property?, reads]; rfl)

/-! ### Runs from the start of a program body -/

theorem Path.prepend {s₁ : State} {node : Node} (ran : Runs setting start node s₁)
    (path : Path setting s₁ trail s) : Path setting start ((start, node) :: trail) s := by
  induction path with
  | start => exact .node .start ran
  | node _ later ih => exact ih.node later

/-- The nodes of a block that is run are a path. -/
theorem Path.of_transferNodes {block : Nat} {nodes : List Node} {m m' : Machine σ}
    {handover : Handover}
    (done : (Dispatcher.base.transferNodes setting block nodes).run.run m = (.ok handover, m')) :
    ∃ trail, Path setting m.state trail m'.state ∧ trail.map Prod.snd = nodes := by
  induction nodes generalizing m with
  | nil =>
      cases done
      exact ⟨[], .start, rfl⟩
  | cons node rest ih =>
      obtain ⟨given, m₁, ran, later⟩ := Fallible.of_run_bind done
      obtain ⟨rfl, _⟩ := Dispatcher.of_dispatch_base ran
      obtain ⟨trail, path, same⟩ := ih later
      exact ⟨(m.state, node) :: trail, path.prepend ⟨m, m₁, _, rfl, rfl, ran⟩, by simp [same]⟩

/-- An empty program. -/
def emptySetting : Setting Unit := ⟨.uniform .anyNumber, .initial, {}⟩

/-- The state at the start of the empty program. -/
def emptyStart : Machine Unit :=
  ⟨⟨.initial, (), []⟩, (State.initial .initial 0 .main false).1, []⟩

/-- The fact on a register after some nodes, its value, and what a property reads as. -/
def observed (nodes : List Node) (r : Register) (label : Label) (key : Key) :
    Option (Option (Label × Key) × Option Value × Option Value) :=
  match (Dispatcher.base.transferNodes emptySetting 0 nodes).run.run emptyStart with
  | (.error _, _) => none
  | (.ok _, m) => some (m.state.mustEquals.get? r, m.state.registers.get? r,
      m.state.contents.property? label key)

theorem of_observed {nodes : List Node} {x : Option (Label × Key)} {y z : Option Value}
    (shown : observed nodes r label key = some (x, y, z)) :
    ∃ trail s, emptyStart.state.Start ∧ Path emptySetting emptyStart.state trail s ∧
      trail.map Prod.snd = nodes ∧ s.mustEquals.get? r = x ∧ s.registers.get? r = y ∧
      s.contents.property? label key = z := by
  unfold observed at shown
  rcases ran : (Dispatcher.base.transferNodes emptySetting 0 nodes).run.run emptyStart with
    ⟨e | handover, m⟩
  · rw [ran] at shown
    cases shown
  · rw [ran] at shown
    cases shown
    obtain ⟨trail, path, same⟩ := Path.of_transferNodes ran
    exact ⟨trail, m.state, .initial _ _ _ _, path, same, rfl, rfl, rfl⟩

/-- The property `p` of a new object is read, and then written. -/
def readThenWrite : List Node :=
  [⟨0, 0, .newObject 0⟩, ⟨1, 0, .readProperty (some 1) 0 (.fixed "p")⟩, ⟨2, 0, .constant 2 .null⟩,
    ⟨3, 0, .writeProperty 0 (.fixed "p") 2⟩]

/-- After the write the fact is still there, and it is false. -/
theorem readThenWrite_stale :
    ∃ trail s, emptyStart.state.Start ∧ Path emptySetting emptyStart.state trail s ∧
      trail.map Prod.snd = readThenWrite ∧
      s.mustEquals.get? 1 = some (⟨0, .object, none⟩, .name "p") ∧
      ¬ s.contents.Equals 1 ⟨0, .object, none⟩ (.name "p") := by
  have shown : observed readThenWrite 1 ⟨0, .object, none⟩ (.name "p") =
      some (some (⟨0, .object, none⟩, .name "p"), some .undefined, some .null) := by
    decide +kernel
  obtain ⟨trail, s, started, path, same, fact, value, reads⟩ := of_observed shown
  refine ⟨trail, s, started, path, same, fact, ?_⟩
  rintro ⟨v, held, equal⟩
  rw [show s.contents.registers 1 = some .undefined from value] at held
  cases held
  rw [reads] at equal
  exact absurd equal (by decide)

/-- A variable is written, and nothing after it. -/
def writeThenKeep : List Node :=
  [⟨0, 0, .constant 0 .null⟩, ⟨1, 0, .writeVariable "x" 0⟩, ⟨2, 0, .constant 1 .undefined⟩]

/-- The fact that was noted at the write is true at the end. -/
theorem writeThenKeep_equals :
    ∃ trail s, emptyStart.state.Start ∧ Path emptySetting emptyStart.state trail s ∧
      trail.map Prod.snd = writeThenKeep ∧
      s.mustEquals.get? 0 = some (.global, .name "x") ∧
      s.contents.Equals 0 .global (.name "x") := by
  have shown : observed writeThenKeep 0 .global (.name "x") =
      some (some (.global, .name "x"), some .null, some .null) := by
    decide +kernel
  obtain ⟨trail, s, started, path, same, fact, _⟩ := of_observed shown
  refine ⟨trail, s, started, path, same, fact, ?_⟩
  obtain ⟨before, s₀, node, s₁, after, rfl, _, _, _, notes, _, noted, later⟩ :=
    mustEquals_iff started path fact
  -- Of the three nodes only the second notes a fact, and the third touches nothing.
  have noting := notes.kind
  rcases before with _ | ⟨first, _ | ⟨second, rest⟩⟩
  · obtain ⟨rfl, _⟩ := List.cons.inj same
    exact absurd noting (by decide)
  · obtain ⟨rfl, last⟩ := List.cons.inj (List.cons.inj same).2
    refine (later (noted.mpr nofun)).2 ?_
    intro entry member touched
    have listed : entry.2 ∈ after.map Prod.snd := List.mem_map_of_mem member
    rw [last, List.mem_singleton] at listed
    rw [listed] at touched
    exact absurd touched.kind (by decide)
  · have tail : List.map Prod.snd (rest ++ (s₀, node) :: after) = _ :=
      (List.cons.inj (List.cons.inj same).2).2
    have listed : node ∈ List.map Prod.snd (rest ++ (s₀, node) :: after) := by simp
    rw [tail, List.mem_singleton] at listed
    rw [listed] at noting
    exact absurd noting (by decide)

end Ordinary

end ScriptHeap
