import ScriptHeap.Proofs.Transfer.HostRules

/-!
# Host objects in the heap

The rules for host values leave the objects of host classes and of their instances alone: what a
heap holds under such labels is looked at on its own (`Contents.hosted`), and no rule changes it but
the call that names a class, which stores an empty object for it. In particular no write does,
whatever labels its base has: the ordinary rule for writes runs only where there is no class or
instance among them, and otherwise only the ordinary objects are written
(`Foreign.shapes_of_write`).
-/

namespace ScriptHeap

open Fallible

/-! ### What steps do to host objects -/

theorem Function.variableLabel_not_hosted (f : Function) (name : String) :
    ¬ (f.variableLabel name).IsHosted := by
  unfold variableLabel
  split <;> simp [Label.IsHosted, Label.activation, Label.global]

namespace Contents

/-- The shapes of classes and instances. -/
def hosted (c : Contents) : Lookup Label Shape := fun label =>
  if label.IsHosted then c.shapes label else none

variable {c c' : Contents} {program : FlowGraph} {node : Node}

theorem hosted_eq {label : Label} (hosted : label.IsHosted) : c.hosted label = c.shapes label :=
  if_pos hosted

theorem hosted_of_shapes (same : c'.shapes = c.shapes) : c'.hosted = c.hosted := by
  unfold hosted
  rw [same]

theorem hosted_change {labels : LabelSet} (apart : ∀ label ∈ labels, ¬ label.IsHosted)
    (f : Option Shape → Option Shape) : (c.change labels f).hosted = c.hosted := by
  funext label
  unfold hosted change
  by_cases hosted : label.IsHosted
  · simp [hosted, show label ∉ labels from fun member => apart label member hosted]
  · simp [hosted]

theorem hosted_write {label : Label} (apart : ¬ label.IsHosted) (f : Option Shape → Option Shape) :
    (c.change (FinSet.singleton label) f).hosted = c.hosted :=
  hosted_change (fun _ member => FinSet.mem_singleton.mp member ▸ apart) f

theorem hosted_writeVariable (c : Contents) (f : Function) (name : String) (v : Value) :
    (c.writeVariable f name v).hosted = c.hosted := by
  have first : (c.writeProperty (FinSet.singleton (f.variableLabel name)) (.name name) v).hosted =
      c.hosted := hosted_write (f.variableLabel_not_hosted name) _
  unfold writeVariable writeArgument
  split
  · exact first
  · split
    · exact (hosted_write (by simp [Label.IsHosted, Label.arguments]) _).trans first
    · exact first

theorem hosted_writeThrough {labels : LabelSet} (apart : ∀ label ∈ labels, ¬ label.IsHosted)
    (key : Option Key) (v : Value) : (c.writeThrough labels key v).hosted = c.hosted := by
  cases key with
  | none => exact hosted_change apart _
  | some key =>
      have written : (c.writeProperty labels key v).hosted = c.hosted := hosted_change apart _
      exact written

/-- A step leaves host objects alone, unless it writes a property of one. -/
theorem Steps.hosted (steps : Steps program node c c')
    (spares : ∀ base property r u, node.operation = .writeProperty base property r →
      c.registers base = some u → ∀ label ∈ u.labels, ¬ label.IsHosted) :
    c'.hosted = c.hosted := by
  have made : ¬ node.label.IsHosted := by simp [Label.IsHosted, Node.label]
  cases steps with
  | constant | readVariable | binaryOperator | idle => rfl
  | readProperty | call => exact hosted_of_shapes (shapes_write? ..)
  | writeVariable => exact hosted_writeVariable ..
  | writeProperty operation object => exact hosted_writeThrough (spares _ _ _ _ operation object) ..
  | newObject => exact (hosted_of_shapes (shapes_write ..)).trans (hosted_write made _)
  | construct => exact (hosted_of_shapes (shapes_write? ..)).trans (hosted_write made _)

end Contents

/-! ### What rules do to host objects -/

namespace Machine.Holds

variable {σ : Type} {R : Lookup Label Shape → Prop} {J : State → Prop} {m : Machine σ}

/-- A change of the state that leaves the host objects alone. -/
theorem hosted (holds : m.Holds (fun s => R s.contents.hosted) J) {s : State}
    (same : s.contents.hosted = m.state.contents.hosted) :
    Machine.Holds (fun s => R s.contents.hosted) J { m with state := s } := by
  refine ⟨?_, holds.pushes⟩
  rw [same]
  exact holds.state

theorem of_after (holds : m.Holds (fun s => R s.contents.hosted) J) {m' : Machine σ}
    {program : FlowGraph} {node : Node} {c : Contents} (after : m.After program node c m')
    (same : c.hosted = m.state.contents.hosted) : m'.Holds (fun s => R s.contents.hosted) J := by
  refine ⟨?_, after.pushes ▸ holds.pushes⟩
  rw [after.contents, same]
  exact holds.state

theorem push (holds : m.Holds (fun s => R s.contents.hosted) J)
    (given : ∀ s : State, R s.contents.hosted → J s) (point : ProgramPoint) :
    Machine.Holds (fun s => R s.contents.hosted) J { m with
      state := m.state.freezeHeap
      pushes := m.pushes ++ [⟨m.state.freezeHeap, point⟩] } := by
  have frozen : R m.state.freezeHeap.contents.hosted := by
    rw [State.contents_freezeHeap]
    exact holds.state
  refine ⟨frozen, fun push member => ?_⟩
  rcases List.mem_append.mp member with old | new
  · exact holds.pushes push old
  · rw [List.mem_singleton.mp new]
    exact given _ frozen

end Machine.Holds

namespace Foreign

variable {σ : Type} {R : Lookup Label Shape → Prop} {J : State → Prop} {setting : Setting σ}
  {node : Node}

/-- The parts of the rules keep a property of the host objects, if the call that names a class does.
    A call pushes what has the property. -/
theorem parts_hosted (given : node.kind = .call → ∀ s : State, R s.contents.hosted → J s)
    (typed : node.kind = .call → ∀ (c : Contents) (index : Nat) (name : Option String),
      R c.hosted → R (c.allocate ⟨index, .foreignType, name⟩).hosted) :
    Parts setting node (Machine.Holds (fun s => R s.contents.hosted) J)
      (Machine.Holds (fun s => R s.contents.hosted) J) (fun _ => True) fun _ => True where
  values := .any node
  answers := .any fun _ _ holds => ⟨holds.state, holds.pushes⟩
  held := fun _ _ => trivial
  missing := fun _ => trivial
  ofHost := fun _ => trivial
  unnamed := fun _ _ _ _ => trivial
  interner := fun _ holds => ⟨holds.state, holds.pushes⟩
  event := fun _ holds => ⟨holds.state, holds.pushes⟩
  write := by
    intro m r v _ holds
    refine holds.hosted ?_
    rw [State.contents_writeRegister]
    exact Contents.hosted_of_shapes (Contents.shapes_write ..)
  definition := fun _ holds => ⟨holds.state, holds.pushes⟩
  newRoot := by
    intro m holds
    refine holds.hosted ?_
    rw [State.contents_allocate]
    exact Contents.hosted_write (by simp [Label.IsHosted]) _
  newType := by
    intro kind m c holds
    refine ⟨?_, holds.pushes⟩
    rw [State.contents_allocate]
    exact typed kind _ _ _ holds.state
  weakWrite := by
    intro m s' labels key v apart _ holds changes
    exact holds.hosted ((Contents.hosted_of_shapes changes.shapes).trans
      (Contents.hosted_change apart _))
  variableWrite := by
    intro m m' name r v f _ _ holds after
    exact holds.of_after after (Contents.hosted_writeVariable _ f name v)
  step := by
    intro m m' c spares holds stepped after
    exact holds.of_after after ((Contents.steps_of_step stepped).hosted spares)
  push := fun kind _ _ _ holds => holds.push (given kind) _
  noPush := fun _ _ _ => trivial

/-- A property of the host objects that naming a class keeps is kept by all rules. -/
theorem spares_dispatch (given : ∀ s : State, R s.contents.hosted → J s)
    (typed : ∀ (c : Contents) (index : Nat) (name : Option String), R c.hosted →
      R (c.allocate ⟨index, .foreignType, name⟩).hosted) (node : Node) :
    Safe (Machine.Holds (fun s => R s.contents.hosted) J) (fun _ => True)
      ((Dispatcher.base.withLayer layer).dispatch setting node) fun _ => True :=
  (parts_hosted (fun _ => given) fun _ => typed).dispatch.safe.mono (fun _ _ => trivial) fun _ => id

/-- No write changes what the heap holds under host labels. -/
theorem shapes_of_write (kind : node.kind = .writeProperty ∨ node.kind = .writeVariable)
    (m : Machine σ) {label : Label} (hosted : label.IsHosted) :
    (((Dispatcher.base.withLayer layer).dispatch setting node).run.run m).2.state.shapes label =
      m.state.shapes label := by
  have notCall : node.kind ≠ .call := by rcases kind with kind | kind <;> simp [kind]
  have parts : Parts setting node _ _ _ _ :=
    parts_hosted (R := (· = m.state.contents.hosted)) (J := fun _ => True)
      (fun call => absurd call notCall) fun call => absurd call notCall
  have kept := parts.dispatch.safe m ⟨rfl, fun _ _ => trivial⟩
  generalize ((Dispatcher.base.withLayer layer).dispatch setting node).run.run m = ended at kept ⊢
  have same : ended.2.state.contents.hosted label = m.state.contents.hosted label :=
    congrFun kept.1.state label
  rw [Contents.hosted_eq hosted, Contents.hosted_eq hosted] at same
  exact same

end Foreign

end ScriptHeap
