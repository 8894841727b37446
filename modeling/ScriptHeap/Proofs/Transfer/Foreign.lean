import ScriptHeap.Proofs.Transfer.Ordinary
import ScriptHeap.Transfer.Foreign

/-!
# Simulation of the rules for host values

Each rule for host values simulates itself on machines whose hosts answer alike. With the ordinary
rules, this makes a whole block simulate itself (`Coupling.Simulates.transferNodes`), under the
dispatcher without layers and under the one with the layer for host values.
-/

namespace ScriptHeap

/-! ### The handlers that count -/

namespace Dispatcher

variable {σ : Type}

/-- Without a layer every kind of operation has its ordinary rule. -/
theorem effective_base (kind : OperationKind) :
    (base : Dispatcher σ).effective.get? kind = some fun _ => Ordinary.rule kind := by
  have listed : kind ∈ OperationKind.all := by cases kind <;> decide
  have lookup := FinMap.get?_ofList_map
    (fun kind _ => Ordinary.rule kind : OperationKind → Handler σ) OperationKind.all kind
  rw [if_pos listed] at lookup
  exact lookup

/-- The layer replaces the rules of six kinds of operation. -/
theorem effective_layered (kind : OperationKind) :
    (base.withLayer Foreign.layer : Dispatcher σ).effective.get? kind =
      some (match kind with
        | .readVariable => Foreign.readVariable
        | .writeVariable => Foreign.writeVariable
        | .readProperty => Foreign.readProperty
        | .writeProperty => Foreign.writeProperty
        | .call => Foreign.call
        | .foreignMarker => Foreign.marker
        | kind => fun _ => Ordinary.rule kind) := by
  show (base.effective.insertAll Foreign.layer.toList).get? kind = _
  rw [FinMap.get?_insertAll_toList, effective_base]
  cases kind <;> rfl

end Dispatcher

namespace Coupling.Simulates

open Fallible

variable {σ τ α β γ δ : Type} {K : Coupling σ τ} {a : Setting σ} {b : Setting τ}

/-- A transfer whose failure is taken up as a result, where what follows fails on it. -/
theorem attempt {R : α → β → Prop} {S : γ → δ → Prop} {x : Transfer σ α} {y : Transfer τ β}
    {f : Except Error α → Transfer σ γ} {g : Except Error β → Transfer τ δ}
    (first : K.Simulates x y R) (fails : ∀ e m c m', (f (.error e)).run.run m ≠ (.ok c, m'))
    (rest : ∀ a b, R a b → K.Simulates (f (.ok a)) (g (.ok b)) S) :
    K.Simulates (Transfer.attempt x >>= f) (Transfer.attempt y >>= g) S := by
  intro m n c m'' coupled done
  obtain ⟨outcome, m', ran, ranRest⟩ := of_run_bind done
  obtain ⟨rfl, rfl⟩ : (x.run.run m).1 = outcome ∧ (x.run.run m).2 = m' := by
    cases ran
    exact ⟨rfl, rfl⟩
  rcases ranFirst : x.run.run m with ⟨e | v, m'⟩
  · rw [ranFirst] at ranRest
    exact absurd ranRest (fails e m' c m'')
  · rw [ranFirst] at ranRest
    obtain ⟨w, n', ranOther, coupled', holds⟩ := first m n v m' coupled ranFirst
    obtain ⟨d, n'', ranRestOther, coupled'', holds'⟩ :=
      rest v w holds m' n' c m'' coupled' ranRest
    refine ⟨d, n'', ?_, coupled'', holds'⟩
    have attempted : (Transfer.attempt y).run.run n = (.ok (.ok w), n') := by
      show (Except.ok (y.run.run n).1, (y.run.run n).2) = _
      rw [ranOther]
    rw [run_bind_of_ok g attempted]
    exact ranRestOther

/-- Values that a register may not have. -/
def SameValue? (v w : Option Value) : Prop := w = v ∧ ∀ u, v = some u → u.WellFormed

/-- The ordinary part runs alike on both sides, if the rule for it does. -/
theorem ordinaryPart {rule : Rule σ} {rule' : Rule τ}
    (simulated : ∀ node, K.Simulates (rule a node) (rule' b node) Eq) (node : Node)
    (base : Register) {ordinary : Value} (formed : ordinary.WellFormed) (result : Option Register) :
    K.Simulates (Foreign.ordinaryPart rule a node base ordinary result)
      (Foreign.ordinaryPart rule' b node base ordinary result) SameValue? := by
  refine .bind (readRegister base) fun whole _ same => ?_
  obtain ⟨rfl, formedWhole⟩ := same
  refine .bind (modifyState fun _ _ agree => agree.writeRegister base formed) fun _ _ _ => ?_
  refine attempt (simulated node) ?_ ?_
  · intro e m v m' done
    split at done
    · obtain ⟨_, _, _, rest⟩ := of_run_bind done
      obtain ⟨_, _, failed, _⟩ := of_run_bind rest
      cases failed
    · obtain ⟨_, _, failed, _⟩ := of_run_bind done
      cases failed
  · intro handover _ same
    subst same
    split
    case' isTrue =>
      refine .bind (modifyState fun _ _ agree => agree.writeRegister base formedWhole)
        fun _ _ _ => ?_
    all_goals
      refine .bind (R := Eq) (ofResult fun h same => ⟨h, same, rfl⟩) fun h _ same => ?_
      subst same
      cases h with
      | done => exact .throw _ _
      | pending =>
          refine .bind state fun s t agree => .pure ⟨by rw [agree.registers], ?_⟩
          intro u found
          obtain ⟨r, _, held⟩ := Option.bind_eq_some_iff.mp found
          exact agree.formed.registers r u held

theorem className (label : Label) :
    K.Simulates (Foreign.className label) (Foreign.className label) Eq := by
  unfold Foreign.className
  cases label.className with
  | none => exact .throw _ _
  | some name => exact .pure rfl

theorem memberName (node : Node) (key : Option Key) :
    K.Simulates (Foreign.memberName node key) (Foreign.memberName node key) Eq := by
  unfold Foreign.memberName
  split
  · exact .pure rfl
  · exact .throw _ _
  · exact .throw _ _

theorem askProperties (hosts : K.Hosts a.host b.host) (node : Node) (name : String)
    (parts : List Value.HostPart) :
    K.Simulates (Foreign.askProperties a node name parts) (Foreign.askProperties b node name parts)
      SameValue := by
  refine .foldlM parts ?_ ⟨rfl, .ofFlags _⟩
  rintro part _ v _ ⟨rfl, formed⟩
  refine .bind (className part.label) fun c _ same => ?_
  subst same
  refine .bind (notify _ _) fun _ _ _ => .bind (askValue (hosts.propertyValue c name)) ?_
  rintro u _ ⟨rfl, formedAnswer⟩
  exact .pure ⟨rfl, formed.join formedAnswer⟩

section Handlers

variable {rule : Rule σ} {rule' : Rule τ}
  (simulated : ∀ node, K.Simulates (rule a node) (rule' b node) Eq)

include simulated

theorem runOrdinaryPart (node : Node) (base : Register) {v : Value} (formed : v.WellFormed)
    (result : Option Register) :
    K.Simulates (Foreign.runOrdinaryPart rule a node base v result)
      (Foreign.runOrdinaryPart rule' b node base v result) Eq := by
  unfold Foreign.runOrdinaryPart
  split
  · exact .bind (ordinaryPart simulated node base formed.notForeign result) fun _ _ _ => .pure rfl
  · exact .pure rfl

theorem joinOrdinaryPart (node : Node) (base : Register) (result : Option Register) {v w : Value}
    (same : SameValue v w) :
    K.Simulates (Foreign.joinOrdinaryPart rule a node base result v)
      (Foreign.joinOrdinaryPart rule' b node base result w) SameValue := by
  obtain ⟨rfl, formed⟩ := same
  refine .bind (readRegister base) fun whole _ wholes => ?_
  obtain ⟨rfl, formedWhole⟩ := wholes
  dsimp only
  split
  · exact .pure ⟨rfl, formed⟩
  · refine .bind (ordinaryPart simulated node base formedWhole.notForeign result) ?_
    intro _ other others
    obtain ⟨rfl, formedOther⟩ := others
    cases other with
    | none => exact .pure ⟨rfl, formed⟩
    | some other => exact .pure ⟨rfl, formed.join (formedOther other rfl)⟩

theorem finishCall (settings : Settings a b) (node : Node) (base : Register)
    (result : Option Register) {v w : Value} (same : SameValue v w) :
    K.Simulates (Foreign.finishCall rule a node base result v)
      (Foreign.finishCall rule' b node base result w) Eq :=
  .bind (joinOrdinaryPart simulated node base result same) fun _ _ joined =>
    .bind (writeResult? node result joined) fun _ _ _ =>
      .bind (pushOn settings node) fun _ _ _ => .pure rfl

theorem foreignReadVariable (settings : Settings a b) (node : Node) :
    K.Simulates (Foreign.readVariable rule a node) (Foreign.readVariable rule' b node) Eq := by
  obtain ⟨index, block, operation⟩ := node
  cases operation with
  | readVariable result name =>
      refine .bind (currentFunction settings) fun f _ same => ?_
      subst same
      rw [settings.options]
      split
      · exact simulated _
      · exact .bind (allocate _) fun _ _ _ =>
          .bind (writeResult _ result ⟨rfl, .objects _⟩) fun _ _ _ => .pure rfl
  | _ => exact unexpected _ _

theorem foreignWriteVariable (settings : Settings a b) (node : Node) :
    K.Simulates (Foreign.writeVariable rule a node) (Foreign.writeVariable rule' b node) Eq := by
  obtain ⟨index, block, operation⟩ := node
  cases operation with
  | writeVariable name r =>
      refine .bind (readRegister r) fun v _ same => ?_
      obtain ⟨rfl, formed⟩ := same
      split
      · exact .bind (recordVariableWrite settings _ name r formed) fun _ _ _ => .pure rfl
      · exact simulated _
  | _ => exact unexpected _ _

/-- A read of a host property runs alike, if the hosts answer alike. -/
theorem foreignReadProperty (settings : Settings a b) (hosts : K.Hosts a.host b.host)
    (node : Node) :
    K.Simulates (Foreign.readProperty rule a node) (Foreign.readProperty rule' b node) Eq := by
  obtain ⟨index, block, operation⟩ := node
  cases operation with
  | readProperty result base property =>
      refine .bind (readRegister base) fun v _ same => ?_
      obtain ⟨rfl, formed⟩ := same
      rw [settings.options]
      dsimp only
      split
      · exact simulated _
      · split
        · split
          · exact simulated _
          · exact .bind (runOrdinaryPart simulated _ base formed result) fun _ _ _ => .pure rfl
        · refine .bind (propertyKey? property) fun key _ keys => ?_
          subst keys
          refine .bind (memberName _ key) fun name _ names => ?_
          subst names
          exact .bind (askProperties hosts _ name _) fun _ _ answers =>
            .bind (joinOrdinaryPart simulated _ base result answers) fun _ _ joined =>
              .bind (writeResult? _ result joined) fun _ _ _ => .pure rfl
  | _ => exact unexpected _ _

theorem foreignWriteProperty (hosts : K.Hosts a.host b.host) (node : Node) :
    K.Simulates (Foreign.writeProperty rule a node) (Foreign.writeProperty rule' b node) Eq := by
  obtain ⟨index, block, operation⟩ := node
  cases operation with
  | writeProperty base property r =>
      refine .bind (readRegister base) fun v _ same => ?_
      obtain ⟨rfl, formed⟩ := same
      dsimp only
      split
      · exact simulated _
      · refine .bind (propertyKey? property) fun key _ keys => ?_
        subst keys
        refine .bind (memberName _ key) fun name _ names => ?_
        subst names
        refine .bind (readRegister r) fun w _ written => ?_
        obtain ⟨rfl, formedWritten⟩ := written
        refine .bind (.forM _ fun part => ?_) fun _ _ _ => ?_
        · exact .bind (className part.label) fun _ _ _ => notify _ _
        · refine .bind (ask (hosts.setProperty _ name _ formed formedWritten)) fun _ _ _ => ?_
          split
          · exact .bind (notify _ _) fun _ _ _ =>
              .bind (changeState (.weakWriteProperty _ _ formedWritten.withoutAttributes))
                fun _ _ _ => .pure rfl
          · exact .pure rfl
  | _ => exact unexpected _ _

theorem construct (settings : Settings a b) (hosts : K.Hosts a.host b.host) (node : Node)
    (operands : CallOperands) :
    K.Simulates (Foreign.construct rule a node operands) (Foreign.construct rule' b node operands)
      Eq := by
  unfold Foreign.construct
  cases operands.function with
  | none => exact simulated node
  | some function =>
      refine .bind (readRegister function) fun _ v same => ?_
      obtain ⟨rfl, _⟩ := same
      split
      · refine .bind (className _) fun c _ names => ?_
        subst names
        exact .bind (readRegisters operands.arguments) fun _ _ _ =>
          .bind (notify _ _) fun _ _ _ =>
            .bind (askValue (hosts.construct node.index c)) fun _ _ made =>
              finishCall simulated settings node function operands.result made
      · exact simulated node

theorem callRoot (settings : Settings a b) (node : Node) (operands : CallOperands)
    (base : Register) (name : String) :
    K.Simulates (Foreign.callRoot rule a node operands base name)
      (Foreign.callRoot rule' b node operands base name) Eq := by
  unfold Foreign.callRoot
  rw [settings.options]
  split
  · exact simulated node
  · split
    · refine .bind (readRegister _) fun _ v same => ?_
      obtain ⟨rfl, _⟩ := same
      cases v.exactString? with
      | none => exact .throw _ _
      | some c =>
          have formed : ∀ label,
              (Value.object label).setDontDelete.setDontEnum.setReadOnly.WellFormed :=
            fun label => (Value.WellFormed.objects (FinSet.singleton label)).of_same rfl rfl rfl rfl
          exact .bind (allocate _) fun _ _ _ =>
            finishCall simulated settings node base operands.result ⟨rfl, formed _⟩
    · exact simulated node

theorem callObject (settings : Settings a b) (hosts : K.Hosts a.host b.host) (node : Node)
    (operands : CallOperands) (base : Register) {receiver : Value} (formed : receiver.WellFormed)
    (name : String) (label : Label) :
    K.Simulates (Foreign.callObject rule a node operands base receiver name label)
      (Foreign.callObject rule' b node operands base receiver name label) Eq := by
  refine .bind (className label) fun c _ names => ?_
  subst names
  refine .bind (readRegisters operands.arguments) fun _ vs same => ?_
  obtain ⟨rfl, formedArguments⟩ := same
  refine .bind (notify _ _) fun _ _ _ => .bind (ask (hosts.call _ name _ formed formedArguments)) ?_
  intro _ v answers
  obtain ⟨rfl, formedAnswer⟩ := answers
  split
  · exact .bind (runOrdinaryPart simulated node base formed operands.result) fun _ _ _ => .pure rfl
  · exact .bind (internValue ⟨rfl, formedAnswer⟩) fun _ _ same =>
      finishCall simulated settings node base operands.result same

theorem callType (settings : Settings a b) (hosts : K.Hosts a.host b.host) (node : Node)
    (operands : CallOperands) (base : Register) (name : String) (label : Label) :
    K.Simulates (Foreign.callType rule a node operands base name label)
      (Foreign.callType rule' b node operands base name label) Eq := by
  refine .bind (className label) fun c _ names => ?_
  subst names
  exact .bind (readRegisters operands.arguments) fun _ _ _ => .bind (notify _ _) fun _ _ _ =>
    .bind (askValue (hosts.functionValue c name)) fun _ _ answers =>
      finishCall simulated settings node base operands.result answers

/-- So does a call, whoever its receiver is. -/
theorem foreignCall (settings : Settings a b) (hosts : K.Hosts a.host b.host) (node : Node) :
    K.Simulates (Foreign.call rule a node) (Foreign.call rule' b node) Eq := by
  unfold Foreign.call
  cases operation : node.operation with
  | call operands =>
      dsimp only
      split
      · exact construct simulated settings hosts node operands
      · split
        · refine .bind (readRegister _) fun _ receiver same => ?_
          obtain ⟨rfl, formed⟩ := same
          split
          · exact simulated node
          · exact callRoot simulated settings node operands _ _
          · exact callObject simulated settings hosts node operands _ formed _ _
          · exact callType simulated settings hosts node operands _ _ _
        · exact simulated node
  | _ => exact unexpected _ _

end Handlers

/-! ### Blocks -/

/-- The ordinary rules run alike with any two hosts. -/
theorem dispatch_base (settings : Settings a b) (node : Node) :
    K.Simulates (Dispatcher.base.dispatch a node) (Dispatcher.base.dispatch b node) Eq := by
  unfold Dispatcher.dispatch
  rw [Dispatcher.effective_base, Dispatcher.effective_base]
  exact ordinary settings node.kind node

/-- All rules run alike, if the hosts answer alike. -/
theorem dispatch_layered (settings : Settings a b) (hosts : K.Hosts a.host b.host) (node : Node) :
    K.Simulates ((Dispatcher.base.withLayer Foreign.layer).dispatch a node)
      ((Dispatcher.base.withLayer Foreign.layer).dispatch b node) Eq := by
  have fallback : ∀ node,
      K.Simulates (Dispatcher.fallback a node) (Dispatcher.fallback b node) Eq :=
    fun node => ordinary settings node.kind node
  unfold Dispatcher.dispatch
  rw [Dispatcher.effective_layered, Dispatcher.effective_layered]
  cases node.kind with
  | readVariable => exact foreignReadVariable fallback settings node
  | writeVariable => exact foreignWriteVariable fallback settings node
  | readProperty => exact foreignReadProperty fallback settings hosts node
  | writeProperty => exact foreignWriteProperty fallback hosts node
  | call => exact foreignCall fallback settings hosts node
  | foreignMarker =>
      show K.Simulates (Foreign.marker _ a node) (Foreign.marker _ b node) Eq
      unfold Foreign.marker
      cases node.operation with
      | foreignMarker => exact .pure rfl
      | _ => exact unexpected _ _
  | constant => exact ordinary settings .constant node
  | newObject => exact ordinary settings .newObject node
  | binaryOperator => exact ordinary settings .binaryOperator node
  | nop => exact ordinary settings .nop node

/-- A block simulates itself if each node does. -/
theorem transferNodes {d : Dispatcher σ} {e : Dispatcher τ}
    (nodes : ∀ node, K.Simulates (d.dispatch a node) (e.dispatch b node) Eq) (block : Nat)
    (rest : List Node) :
    K.Simulates (d.transferNodes a block rest) (e.transferNodes b block rest) Eq := by
  induction rest with
  | nil => exact .pure rfl
  | cons node rest ih =>
      refine .bind (nodes node) fun handover _ same => ?_
      subst same
      cases handover with
      | pending => exact ih
      | done =>
          dsimp only
          split
          · exact .pure rfl
          · exact .throw _ _

end Coupling.Simulates

end ScriptHeap
