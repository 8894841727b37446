import ScriptHeap.Proofs.Transfer.Simulation
import ScriptHeap.Transfer.Ordinary

/-!
# Simulation of the ordinary rules

Each ordinary rule simulates itself, whatever the hosts of the two machines do: it never asks them.
-/

namespace ScriptHeap

theorem Constant.value_wellFormed (c : Constant) : c.value.WellFormed := by
  cases c with
  | string s => exact .ofString s
  | undefined | null | boolean | number => exact .ofFlags _

theorem BinaryOperator.value_wellFormed (op : BinaryOperator) (lhs rhs : Value) :
    (op.value lhs rhs).WellFormed := by
  cases op with
  | add =>
      show (sum lhs rhs).WellFormed
      unfold sum
      split
      · exact .ofString _
      · split
        · exact Value.WellFormed.join (.ofFlags _) (.ofFlags _)
        · exact .ofFlags _
  | sub | mul | div | eq | strictEq | lt => exact .ofFlags _

namespace Coupling.Simulates

variable {σ τ : Type} {K : Coupling σ τ} {a : Setting σ} {b : Setting τ}

theorem constant (a : Setting σ) (b : Setting τ) (node : Node) :
    K.Simulates (Ordinary.constant a node) (Ordinary.constant b node) Eq := by
  obtain ⟨index, block, operation⟩ := node
  cases operation with
  | constant result c =>
      exact .bind (writeResult _ result ⟨rfl, c.value_wellFormed⟩) fun _ _ _ => .pure rfl
  | _ => exact unexpected _ _

/-- Variables read the same, whatever the two interners know. -/
theorem readVariable (settings : Settings a b) (node : Node) :
    K.Simulates (Ordinary.readVariable a node) (Ordinary.readVariable b node) Eq := by
  obtain ⟨index, block, operation⟩ := node
  cases operation with
  | readVariable result name =>
      refine .bind (currentFunction settings) fun f _ same => .bind get fun m n coupled => ?_
      subst same
      have value : (n.state.readVariable n.interner f name).1 =
          (m.state.readVariable m.interner f name).1 := by
        rw [State.readVariable_fst, State.readVariable_fst, coupled.states.object?,
          State.variableObject_fst n.interner m.interner]
      exact .bind (intern _ _) fun _ _ _ => .bind (notify _ _) fun _ _ _ =>
        .bind (writeResult _ result ⟨value, coupled.states.formed.readVariable _ f name⟩)
          fun _ _ _ => .pure rfl
  | _ => exact unexpected _ _

theorem writeArgument (f : Function) (name : String) {v : Value} (formed : v.WellFormed) :
    K.Simulates (Ordinary.writeArgument f name v) (Ordinary.writeArgument f name v) Eq := by
  unfold Ordinary.writeArgument
  cases f.parameterIndex? name with
  | none => exact .pure rfl
  | some index =>
      refine .bind (intern _ _) fun _ _ _ => .bind state fun s t agree => ?_
      rw [agree.heap]
      split
      · exact changeState (.writeProperty _ _ formed)
      · exact .pure rfl

/-- A variable is written to the same object, and its register gets the same fact. -/
theorem recordVariableWrite (settings : Settings a b) (node : Node) (name : String) (r : Register)
    {v : Value} (formed : v.WellFormed) :
    K.Simulates (Ordinary.recordVariableWrite a node name r v)
      (Ordinary.recordVariableWrite b node name r v) Eq := by
  refine .bind (currentFunction settings) fun f _ same => .bind get fun m n coupled => ?_
  subst same
  refine .bind (intern _ _) fun _ _ _ =>
    .bind (R := fun written other => other.1 = written.1 ∧ K.States written.2 other.2)
      (ofResult ?_) ?_
  · rintro ⟨labels, s⟩ done
    obtain ⟨t, doneOther, agree⟩ := coupled.states.writeVariable _ n.interner f name formed done
    exact ⟨(labels, t), doneOther, rfl, agree⟩
  · rintro ⟨labels, s⟩ ⟨others, t⟩ ⟨same, agree⟩
    obtain rfl : others = labels := same
    refine .bind (modifyState fun _ _ _ => agree) fun _ _ _ =>
      .bind (writeArgument f name formed) fun _ _ _ => .bind state fun _ _ _ =>
      .bind (notify _ _) fun _ _ _ => .bind (notify _ _) fun _ _ _ => ?_
    cases others.toList with
    | nil => exact .pure rfl
    | cons label rest => exact modifyState fun _ _ agree => agree.addMustEquals r label _

theorem writeVariable (settings : Settings a b) (node : Node) :
    K.Simulates (Ordinary.writeVariable a node) (Ordinary.writeVariable b node) Eq := by
  obtain ⟨index, block, operation⟩ := node
  cases operation with
  | writeVariable name r =>
      refine .bind (readRegister r) fun v w same => ?_
      obtain ⟨rfl, formed⟩ := same
      exact .bind (recordVariableWrite settings _ name r formed.withoutAttributes.collapse)
        fun _ _ _ => .pure rfl
  | _ => exact unexpected _ _

/-- A read of a property makes the same fact, whatever facts there were before. -/
theorem readProperty (a : Setting σ) (b : Setting τ) (node : Node) :
    K.Simulates (Ordinary.readProperty a node) (Ordinary.readProperty b node) Eq := by
  obtain ⟨index, block, operation⟩ := node
  cases operation with
  | readProperty result base property =>
      refine .bind (readRegister base) fun v w same =>
        .bind (propertyKey? property) fun key _ keys =>
        .bind state fun s t agree => ?_
      obtain ⟨rfl, formed⟩ := same
      subst keys
      rw [agree.readProperty, agree.readAnyProperty]
      cases result with
      | none => exact .pure rfl
      | some r =>
          refine .bind (writeResult _ r ⟨rfl, ?_⟩) fun _ _ _ => ?_
          · have widened : ∀ read : Value, read.WellFormed →
                (if w.maybePrimitive then read.join .anyPrimitive else read).WellFormed := by
              intro read formedRead
              split
              · exact formedRead.join (.ofFlags _)
              · exact formedRead
            refine widened _ (State.readAs_wellFormed ?_)
            cases key with
            | some key => exact agree.formed.readProperty _ key
            | none => exact agree.formed.readAnyProperty _
          · cases key with
            | none => exact .pure rfl
            | some key =>
                cases w.labels.toList with
                | nil => exact .pure rfl
                | cons label rest =>
                    cases rest with
                    | nil =>
                        exact .bind (modifyState fun _ _ agree => agree.addMustEquals r label key)
                          fun _ _ _ => .pure rfl
                    | cons => exact .pure rfl
  | _ => exact unexpected _ _

/-- A write of a property does not look at facts. -/
theorem writeProperty (a : Setting σ) (b : Setting τ) (node : Node) :
    K.Simulates (Ordinary.writeProperty a node) (Ordinary.writeProperty b node) Eq := by
  obtain ⟨index, block, operation⟩ := node
  cases operation with
  | writeProperty base property r =>
      refine .bind (readRegister base) fun u _ bases => .bind (readRegister r) fun v _ values =>
        .bind (propertyKey? property) fun key _ keys => ?_
      obtain ⟨rfl, _⟩ := bases
      obtain ⟨rfl, formed⟩ := values
      subst keys
      cases key with
      | some key =>
          exact .bind (notify _ _) fun _ _ _ =>
            .bind (changeState (.writeProperty _ _ formed.withoutAttributes)) fun _ _ _ => .pure rfl
      | none =>
          exact .bind (changeState (.writeAnyProperty _ formed.withoutAttributes))
            fun _ _ _ => .pure rfl
  | _ => exact unexpected _ _

theorem makeObject (node : Node) :
    K.Simulates (Ordinary.makeObject node) (Ordinary.makeObject node) SameValue :=
  .bind (allocate _) fun _ _ _ => .pure ⟨rfl, .objects _⟩

theorem newObject (a : Setting σ) (b : Setting τ) (node : Node) :
    K.Simulates (Ordinary.newObject a node) (Ordinary.newObject b node) Eq := by
  obtain ⟨index, block, operation⟩ := node
  cases operation with
  | newObject result =>
      exact .bind (makeObject _) fun _ _ same =>
        .bind (writeResult _ result same) fun _ _ _ => .pure rfl
  | _ => exact unexpected _ _

/-- A call has the same result on both sides. -/
theorem call (a : Setting σ) (b : Setting τ) (node : Node) :
    K.Simulates (Ordinary.call a node) (Ordinary.call b node) Eq := by
  obtain ⟨index, block, operation⟩ := node
  cases operation with
  | call operands =>
      refine .bind (readRegisters operands.arguments) fun _ _ _ => ?_
      split
      · exact .bind (makeObject _) fun _ _ same =>
          .bind (writeResult? _ operands.result same) fun _ _ _ => .pure rfl
      · exact .bind (.pure (R := SameValue) ⟨rfl, .ofFlags _⟩) fun _ _ same =>
          .bind (writeResult? _ operands.result same) fun _ _ _ => .pure rfl
  | _ => exact unexpected _ _

theorem binaryOperator (a : Setting σ) (b : Setting τ) (node : Node) :
    K.Simulates (Ordinary.binaryOperator a node) (Ordinary.binaryOperator b node) Eq := by
  obtain ⟨index, block, operation⟩ := node
  cases operation with
  | binaryOperator result op lhs rhs =>
      refine .bind (readRegister lhs) fun l _ lefts => .bind (readRegister rhs) fun r _ rights => ?_
      obtain ⟨rfl, _⟩ := lefts
      obtain ⟨rfl, _⟩ := rights
      exact .bind (writeResult _ result ⟨rfl, op.value_wellFormed _ _⟩) fun _ _ _ => .pure rfl
  | _ => exact unexpected _ _

/-- Every ordinary rule simulates itself. -/
theorem ordinary (settings : Settings a b) (kind : OperationKind) (node : Node) :
    K.Simulates (Ordinary.rule kind a node) (Ordinary.rule kind b node) Eq := by
  cases kind with
  | constant => exact constant a b node
  | readVariable => exact readVariable settings node
  | writeVariable => exact writeVariable settings node
  | readProperty => exact readProperty a b node
  | writeProperty => exact writeProperty a b node
  | newObject => exact newObject a b node
  | call => exact call a b node
  | binaryOperator => exact binaryOperator a b node
  | foreignMarker | nop => exact .pure rfl

end Coupling.Simulates

end ScriptHeap
