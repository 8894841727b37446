import Mathlib.Data.List.Forall2
import ScriptHeap.Proofs.State.View
import ScriptHeap.Proofs.Transfer.Foreign

/-!
# Transfers that do not look at holders

Two machines are twins if their states are, if they have pushed states that are twins to the same
points, and if they agree on everything else. A transfer is blind if it cannot tell twins apart: it
gives the same result or fails with the same error, and leaves twins (`Transfer.Blind`). Every rule
is blind, and so is a whole block (`Transfer.Blind.transferNodes`). No rule asks in its setting
whether objects are copied in full (`Dispatcher.transferNodes_withCopying`).
-/

namespace ScriptHeap

open Fallible

/-- Pushes of twins to one point. -/
structure Push.Twin (p q : Push) : Prop where
  state : p.state.Twin q.state
  point : p.point = q.point

/-- Machines that look the same. -/
structure Machine.Twin {σ : Type} (m n : Machine σ) : Prop where
  world : m.toWorld = n.toWorld
  state : m.state.Twin n.state
  pushes : List.Forall₂ Push.Twin m.pushes n.pushes

namespace Transfer

variable {σ α β : Type}

/-- On twins the transfer has the same outcome, and it leaves twins. -/
abbrev Blind (x : Transfer σ α) : Prop := Lockstep Machine.Twin x x Eq

namespace Blind

/-! ### Primitives -/

theorem ofResult (r : Except Error α) : Blind (Transfer.ofResult r : Transfer σ α) :=
  Lockstep.ofResult (.refl (fun _ => rfl) r)

theorem unexpected (node : Node) : Blind (Transfer.unexpected node : Transfer σ α) :=
  .throw _

theorem state :
    Lockstep Machine.Twin (Transfer.state : Transfer σ State) Transfer.state State.Twin :=
  .bind .get fun _ _ twin => .pure twin.state

/-- Reading from the state what its view determines. -/
theorem reading {f : State → Transfer σ α} (blind : ∀ s t, s.Twin t → f s = f t)
    (each : ∀ s, Blind (f s)) : Blind (Transfer.state >>= f) := by
  refine .bind state fun s t twin => ?_
  rw [blind s t twin]
  exact each t

theorem modifyState {f g : State → State} (keeps : ∀ s t, s.Twin t → (f s).Twin (g t)) :
    Lockstep Machine.Twin (Transfer.modifyState f : Transfer σ Unit) (Transfer.modifyState g) Eq :=
  .modify fun _ _ twin => ⟨twin.world, keeps _ _ twin.state, twin.pushes⟩

theorem changeState {f : State → Except Error State}
    (concur : ∀ s t, s.Twin t → Concur State.Twin (f s) (f t)) :
    Blind (Transfer.changeState f : Transfer σ Unit) :=
  .bind state fun s t twin => .bind (.ofResult (concur s t twin)) fun _ _ changed =>
    modifyState fun _ _ _ => changed

/-- A change of the world does not touch the state. -/
theorem modifyWorld (f : World σ → World σ) :
    Blind (modify fun m => { m with toWorld := f m.toWorld } : Transfer σ PUnit) :=
  .modify fun _ _ twin => ⟨congrArg f twin.world, twin.state, twin.pushes⟩

theorem intern (f : Interner → Interner) : Blind (Transfer.intern f : Transfer σ Unit) :=
  modifyWorld fun world => { world with interner := f world.interner }

theorem notify (event : Event) : Blind (Transfer.notify event : Transfer σ Unit) :=
  modifyWorld fun world => { world with events := world.events ++ [event] }

theorem ask (call : HostCall σ α) : Blind (Transfer.ask call) := by
  refine .bind .get fun m n twin => ?_
  have hosts : m.host = n.host := congrArg World.host twin.world
  rw [hosts]
  exact .andThen (modifyWorld fun world => { world with host := (call.run.run n.host).2 }) fun _ =>
    ofResult _

theorem internValue (v : Value) : Blind (Transfer.internValue v : Transfer σ Value) := by
  rw [Transfer.internValue_eq]
  exact .andThen (intern _) fun _ => .pure rfl

theorem askValue (call : HostCall σ Value) : Blind (Transfer.askValue call) :=
  .andThen (ask call) internValue

/-- A failure that is taken as a result is the same on twins. -/
theorem attempt {x : Transfer σ α} (blind : Blind x) : Blind (Transfer.attempt x) := by
  intro m n twin
  obtain ⟨twin', concur⟩ := blind m n twin
  exact ⟨twin', .ok concur.eq⟩

theorem readRegister (r : Register) : Blind (Transfer.readRegister r : Transfer σ Value) :=
  reading (fun s t twin => by rw [twin.readRegister]) fun s => ofResult _

theorem readRegisters (rs : List Register) :
    Blind (Transfer.readRegisters rs : Transfer σ (List Value)) :=
  .mapM rs readRegister

theorem writeResult (node : Node) (r : Register) (v : Value) :
    Blind (Transfer.writeResult node r v : Transfer σ Unit) :=
  modifyState fun _ _ twin => (twin.writeRegister r v).addMustDef r node.index

theorem writeResult? (node : Node) (r : Option Register) (v : Value) :
    Blind (Transfer.writeResult? node r v : Transfer σ Unit) := by
  cases r with
  | none => exact .pure rfl
  | some r => exact writeResult node r v

theorem allocate (label : Label) : Blind (Transfer.allocate label : Transfer σ Unit) :=
  .andThen (intern _) fun _ => modifyState fun _ _ twin => twin.newObject label (.refl _)

theorem currentFunction (setting : Setting σ) : Blind (Transfer.currentFunction setting) :=
  reading (fun s t twin => by rw [twin.function]) fun s => ofResult _

theorem propertyKey? (property : PropertyName) :
    Blind (Transfer.propertyKey? property : Transfer σ (Option Key)) := by
  cases property with
  | fixed name => exact .pure rfl
  | dynamic r => exact .andThen (readRegister r) fun _ => .pure rfl

theorem pushOn (setting : Setting σ) (node : Node) : Blind (Transfer.pushOn setting node) := by
  refine .andThen (ofResult _) fun successor =>
    .andThen (modifyState fun _ _ twin => twin.freezeHeap) fun _ => .modify ?_
  intro m n twin
  refine ⟨twin.world, twin.state, List.rel_append twin.pushes (.cons ⟨twin.state, ?_⟩ .nil)⟩
  rw [twin.state.context]

/-! ### Ordinary rules -/

theorem writeArgument (f : Function) (name : String) (v : Value) :
    Blind (Ordinary.writeArgument f name v : Transfer σ Unit) := by
  unfold Ordinary.writeArgument
  cases f.parameterIndex? name with
  | none => exact .pure rfl
  | some index =>
      refine .andThen (intern _) fun _ =>
        reading (fun s t twin => by rw [twin.contains]) fun s => ?_
      split
      · exact changeState fun _ _ twin => twin.writeProperty _ _ v
      · exact .pure rfl

theorem recordVariableWrite (setting : Setting σ) (node : Node) (name : String) (r : Register)
    (v : Value) : Blind (Ordinary.recordVariableWrite setting node name r v) := by
  refine .andThen (currentFunction setting) fun f => .bind .get fun m n twin => ?_
  have interners : m.interner = n.interner := congrArg World.interner twin.world
  rw [interners]
  obtain ⟨_, written⟩ := twin.state.writeVariable n.interner f name v
  refine .andThen (intern _) fun _ => .bind (Lockstep.ofResult written) fun a b same => ?_
  refine .andThen (modifyState fun _ _ _ => same.2) fun _ => .andThen (writeArgument f name v) ?_
  intro _
  rw [same.1]
  refine reading (fun s t twin => by rw [twin.context]) fun s =>
    .andThen (notify _) fun _ => .andThen (notify _) fun _ => ?_
  cases b.1.toList with
  | nil => exact .pure rfl
  | cons label rest => exact modifyState fun _ _ twin => twin.addMustEquals r label _

theorem makeObject (node : Node) : Blind (Ordinary.makeObject node : Transfer σ Value) :=
  .andThen (allocate _) fun _ => .pure rfl

/-- What a read of a property writes and notes. -/
theorem readProperty (setting : Setting σ) (node : Node) :
    Blind (Ordinary.readProperty setting node) := by
  obtain ⟨index, block, operation⟩ := node
  cases operation with
  | readProperty result base property =>
      refine .andThen (readRegister base) fun v => .andThen (propertyKey? property) fun key => ?_
      refine reading (fun s t twin => by rw [twin.readAnyProperty, funext (twin.readProperty _)]) ?_
      intro s
      cases result with
      | none => exact .pure rfl
      | some r =>
          refine .andThen (writeResult _ r _) fun _ => ?_
          dsimp only
          split
          · exact .andThen (modifyState fun _ _ twin => twin.addMustEquals r _ _) fun _ => .pure rfl
          · exact .pure rfl
  | _ => exact unexpected _

/-- Every ordinary rule is blind. -/
theorem ordinary (kind : OperationKind) (setting : Setting σ) (node : Node) :
    Blind (Ordinary.rule kind setting node) := by
  obtain ⟨index, block, operation⟩ := node
  cases kind with
  | readProperty => exact readProperty setting _
  | foreignMarker | nop => exact .pure rfl
  | constant =>
      cases operation with
      | constant result c => exact .andThen (writeResult _ result _) fun _ => .pure rfl
      | _ => exact unexpected _
  | readVariable =>
      cases operation with
      | readVariable result name =>
          refine .andThen (currentFunction setting) fun f => .bind .get fun m n twin => ?_
          have interners : m.interner = n.interner := congrArg World.interner twin.world
          rw [interners, twin.state.readVariable, twin.state.context]
          exact .andThen (intern _) fun _ => .andThen (notify _) fun _ =>
            .andThen (writeResult _ result _) fun _ => .pure rfl
      | _ => exact unexpected _
  | writeVariable =>
      cases operation with
      | writeVariable name r =>
          exact .andThen (readRegister r) fun _ =>
            .andThen (recordVariableWrite setting _ name r _) fun _ => .pure rfl
      | _ => exact unexpected _
  | writeProperty =>
      cases operation with
      | writeProperty base property r =>
          refine .andThen (readRegister base) fun _ => .andThen (readRegister r) fun v =>
            .andThen (propertyKey? property) fun key => ?_
          cases key with
          | none =>
              exact .andThen (changeState fun _ _ twin => twin.writeAnyProperty _ _) fun _ =>
                .pure rfl
          | some key =>
              exact .andThen (notify _) fun _ =>
                .andThen (changeState fun _ _ twin => twin.writeProperty _ key _) fun _ => .pure rfl
      | _ => exact unexpected _
  | newObject =>
      cases operation with
      | newObject result =>
          exact .andThen (makeObject _) fun _ => .andThen (writeResult _ result _) fun _ =>
            .pure rfl
      | _ => exact unexpected _
  | call =>
      cases operation with
      | call operands =>
          refine .andThen (readRegisters operands.arguments) fun _ => ?_
          split
          · exact .andThen (makeObject _) fun _ => .andThen (writeResult? _ _ _) fun _ => .pure rfl
          · exact .andThen (.pure rfl) fun _ => .andThen (writeResult? _ _ _) fun _ => .pure rfl
      | _ => exact unexpected _
  | binaryOperator =>
      cases operation with
      | binaryOperator result op lhs rhs =>
          exact .andThen (readRegister lhs) fun _ => .andThen (readRegister rhs) fun _ =>
            .andThen (writeResult _ result _) fun _ => .pure rfl
      | _ => exact unexpected _

/-! ### Rules for host values -/

theorem className (label : Label) : Blind (Foreign.className label : Transfer σ String) := by
  unfold Foreign.className
  cases label.className with
  | none => exact .throw _
  | some name => exact .pure rfl

theorem memberName (node : Node) (key : Option Key) :
    Blind (Foreign.memberName node key : Transfer σ String) := by
  unfold Foreign.memberName
  split
  · exact .pure rfl
  · exact .throw _
  · exact .throw _

theorem askProperties (setting : Setting σ) (node : Node) (name : String)
    (parts : List Value.HostPart) : Blind (Foreign.askProperties setting node name parts) := by
  refine .foldlM parts ?_ rfl
  rintro part v _ rfl
  exact .andThen (className part.label) fun c => .andThen (notify _) fun _ =>
    .andThen (askValue _) fun _ => .pure rfl

section Handlers

variable {rule : Rule σ} {setting : Setting σ} (blind : ∀ node, Blind (rule setting node))
  (node : Node)

include blind

theorem ordinaryPart (base : Register) (v : Value) (result : Option Register) :
    Blind (Foreign.ordinaryPart rule setting node base v result) := by
  refine .andThen (readRegister base) fun whole =>
    .andThen (modifyState fun _ _ twin => twin.writeRegister base v) fun _ =>
    .andThen (attempt (blind node)) fun outcome => ?_
  split
  case' isTrue =>
    refine .andThen (modifyState fun _ _ twin => twin.writeRegister base whole) fun _ => ?_
  all_goals
    refine .andThen (ofResult outcome) fun handover => ?_
    cases handover with
    | done => exact .throw _
    | pending => exact reading (fun s t twin => by rw [twin.registers]) fun s => .pure rfl

theorem runOrdinaryPart (base : Register) (v : Value) (result : Option Register) :
    Blind (Foreign.runOrdinaryPart rule setting node base v result) := by
  unfold Foreign.runOrdinaryPart
  split
  · exact .andThen (ordinaryPart blind node base _ result) fun _ => .pure rfl
  · exact .pure rfl

theorem joinOrdinaryPart (base : Register) (result : Option Register) (v : Value) :
    Blind (Foreign.joinOrdinaryPart rule setting node base result v) := by
  refine .andThen (readRegister base) fun whole => ?_
  dsimp only
  split
  · exact .pure rfl
  · refine .andThen (ordinaryPart blind node base _ result) fun other => ?_
    cases other with
    | none => exact .pure rfl
    | some other => exact .pure rfl

theorem finishCall (base : Register) (result : Option Register) (v : Value) :
    Blind (Foreign.finishCall rule setting node base result v) :=
  .andThen (joinOrdinaryPart blind node base result v) fun _ =>
    .andThen (writeResult? node result _) fun _ =>
    .andThen (pushOn setting node) fun _ => .pure rfl

theorem foreignReadVariable : Blind (Foreign.readVariable rule setting node) := by
  obtain ⟨index, block, operation⟩ := node
  cases operation with
  | readVariable result name =>
      refine .andThen (currentFunction setting) fun f => ?_
      split
      · exact blind _
      · exact .andThen (allocate _) fun _ => .andThen (writeResult _ result _) fun _ => .pure rfl
  | _ => exact unexpected _

theorem foreignWriteVariable : Blind (Foreign.writeVariable rule setting node) := by
  obtain ⟨index, block, operation⟩ := node
  cases operation with
  | writeVariable name r =>
      refine .andThen (readRegister r) fun v => ?_
      split
      · exact .andThen (recordVariableWrite setting _ name r v) fun _ => .pure rfl
      · exact blind _
  | _ => exact unexpected _

theorem foreignReadProperty : Blind (Foreign.readProperty rule setting node) := by
  obtain ⟨index, block, operation⟩ := node
  cases operation with
  | readProperty result base property =>
      refine .andThen (readRegister base) fun v => ?_
      dsimp only
      split
      · exact blind _
      · split
        · split
          · exact blind _
          · exact .andThen (runOrdinaryPart blind _ base v result) fun _ => .pure rfl
        · exact .andThen (propertyKey? property) fun key => .andThen (memberName _ key) fun name =>
            .andThen (askProperties setting _ name _) fun _ =>
            .andThen (joinOrdinaryPart blind _ base result _) fun _ =>
            .andThen (writeResult? _ result _) fun _ => .pure rfl
  | _ => exact unexpected _

theorem foreignWriteProperty : Blind (Foreign.writeProperty rule setting node) := by
  obtain ⟨index, block, operation⟩ := node
  cases operation with
  | writeProperty base property r =>
      refine .andThen (readRegister base) fun v => ?_
      dsimp only
      split
      · exact blind _
      · refine .andThen (propertyKey? property) fun key => .andThen (memberName _ key) fun name =>
          .andThen (readRegister r) fun w => .andThen (.forM _ fun part => ?_) fun _ =>
          .andThen (ask _) fun _ => ?_
        · exact .andThen (className part.label) fun _ => notify _
        · split
          · exact .andThen (notify _) fun _ =>
              .andThen (changeState fun _ _ twin => twin.weakWriteProperty _ _ _) fun _ => .pure rfl
          · exact .pure rfl
  | _ => exact unexpected _

theorem construct (operands : CallOperands) :
    Blind (Foreign.construct rule setting node operands) := by
  unfold Foreign.construct
  cases operands.function with
  | none => exact blind node
  | some function =>
      refine .andThen (readRegister function) fun v => ?_
      split
      · exact .andThen (className _) fun c => .andThen (readRegisters operands.arguments) fun _ =>
          .andThen (notify _) fun _ => .andThen (askValue _) fun _ =>
          finishCall blind node function operands.result _
      · exact blind node

theorem callRoot (operands : CallOperands) (base : Register) (name : String) :
    Blind (Foreign.callRoot rule setting node operands base name) := by
  unfold Foreign.callRoot
  split
  · exact blind node
  · split
    · refine .andThen (readRegister _) fun v => ?_
      cases v.exactString? with
      | none => exact .throw _
      | some c =>
          exact .andThen (allocate _) fun _ => finishCall blind node base operands.result _
    · exact blind node

theorem callObject (operands : CallOperands) (base : Register) (receiver : Value) (name : String)
    (label : Label) :
    Blind (Foreign.callObject rule setting node operands base receiver name label) := by
  refine .andThen (className label) fun c => .andThen (readRegisters operands.arguments) fun vs =>
    .andThen (notify _) fun _ => .andThen (ask _) fun v => ?_
  split
  · exact .andThen (runOrdinaryPart blind node base receiver operands.result) fun _ => .pure rfl
  · exact .andThen (internValue v) fun _ => finishCall blind node base operands.result _

theorem callType (operands : CallOperands) (base : Register) (name : String) (label : Label) :
    Blind (Foreign.callType rule setting node operands base name label) :=
  .andThen (className label) fun _ => .andThen (readRegisters operands.arguments) fun _ =>
    .andThen (notify _) fun _ => .andThen (askValue _) fun _ =>
    finishCall blind node base operands.result _

theorem foreignCall : Blind (Foreign.call rule setting node) := by
  unfold Foreign.call
  cases node.operation with
  | call operands =>
      dsimp only
      split
      · exact construct blind node operands
      · split
        · refine .andThen (readRegister _) fun receiver => ?_
          split
          · exact blind node
          · exact callRoot blind node operands _ _
          · exact callObject blind node operands _ receiver _ _
          · exact callType blind node operands _ _ _
        · exact blind node
  | _ => exact unexpected _

end Handlers

theorem marker {rule : Rule σ} (setting : Setting σ) (node : Node) :
    Blind (Foreign.marker rule setting node) := by
  obtain ⟨index, block, operation⟩ := node
  cases operation with
  | foreignMarker => exact .pure rfl
  | _ => exact unexpected _

/-! ### Blocks -/

theorem dispatch_base (setting : Setting σ) (node : Node) :
    Blind (Dispatcher.base.dispatch setting node) := by
  unfold Dispatcher.dispatch
  rw [Dispatcher.effective_base]
  exact ordinary node.kind setting node

theorem dispatch_layered (setting : Setting σ) (node : Node) :
    Blind ((Dispatcher.base.withLayer Foreign.layer).dispatch setting node) := by
  have fallback : ∀ node, Blind (Dispatcher.fallback setting node) :=
    fun node => ordinary node.kind setting node
  unfold Dispatcher.dispatch
  rw [Dispatcher.effective_layered]
  cases node.kind with
  | readVariable => exact foreignReadVariable fallback node
  | writeVariable => exact foreignWriteVariable fallback node
  | readProperty => exact foreignReadProperty fallback node
  | writeProperty => exact foreignWriteProperty fallback node
  | call => exact foreignCall fallback node
  | constant | newObject | binaryOperator | nop => exact ordinary _ setting node
  | foreignMarker => exact marker setting node

/-- A block is blind if each of its nodes is. -/
theorem transferNodes {d : Dispatcher σ} {setting : Setting σ}
    (nodes : ∀ node, Blind (d.dispatch setting node)) (block : Nat) (rest : List Node) :
    Blind (d.transferNodes setting block rest) := by
  induction rest with
  | nil => exact .pure rfl
  | cons node rest ih =>
      refine .andThen (nodes node) fun handover => ?_
      cases handover with
      | pending => exact ih
      | done =>
          dsimp only
          split
          · exact .pure rfl
          · exact .throw _

end Blind

end Transfer

/-! ### How objects are copied -/

/-- The setting with objects copied in full before they are changed, or not. -/
def Setting.withCopying {σ : Type} (setting : Setting σ) (disabled : Bool) : Setting σ :=
  { setting with options := { setting.options with copyOnWriteDisabled := disabled } }

namespace Dispatcher

variable {σ : Type} (setting : Setting σ) (disabled : Bool)

theorem dispatch_base_withCopying (node : Node) :
    base.dispatch (setting.withCopying disabled) node = base.dispatch setting node := by
  unfold dispatch
  rw [effective_base]
  obtain ⟨index, block, operation⟩ := node
  cases operation <;> rfl

theorem dispatch_layered_withCopying (node : Node) :
    (base.withLayer Foreign.layer).dispatch (setting.withCopying disabled) node =
      (base.withLayer Foreign.layer).dispatch setting node := by
  unfold dispatch
  rw [effective_layered]
  -- With the operation known, so is the rule to fall back on, and the settings differ nowhere else.
  obtain ⟨index, block, operation⟩ := node
  cases operation <;> rfl

/-- A block does not depend on how objects are copied if none of its nodes does. -/
theorem transferNodes_withCopying {d : Dispatcher σ}
    (nodes : ∀ node, d.dispatch (setting.withCopying disabled) node = d.dispatch setting node)
    (block : Nat) (rest : List Node) :
    d.transferNodes (setting.withCopying disabled) block rest =
      d.transferNodes setting block rest := by
  induction rest with
  | nil => rfl
  | cons node rest ih =>
      unfold transferNodes
      rw [nodes node, ih]

end Dispatcher

end ScriptHeap
