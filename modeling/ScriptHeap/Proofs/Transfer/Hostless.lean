import ScriptHeap.Proofs.Transfer.Logic
import ScriptHeap.Proofs.Transfer.Values

/-!
# Blocks without host values

A host value is made by reading the namespace root, or out of another host value. Where no node
reads the root and no register or slot holds a host value, each rule for host values looks at its
receiver, finds nothing that concerns the host, and falls back on the ordinary rule
(`Dispatcher.dispatch_layered`). Looking can fail where the ordinary rule would not have looked; the
error is then one that an analysis has to stop at. So the layer for host values runs a block as the
ordinary rules do, or stops (`Dispatcher.transferNodes_layered`).

The ordinary rules leave the host alone, and log no question to it
(`Transfer.Unasked.transferNodes`).
-/

namespace ScriptHeap

open Fallible

/-! ### Values -/

/-- The value has no label of the host's side. -/
def Value.Hostless (v : Value) : Prop := ∀ label ∈ v.labels, label.kind.isForeign = false

namespace Value.Hostless

variable {v w : Value}

theorem hostParts (hostless : v.Hostless) : v.hostParts = [] := by
  apply List.filterMap_eq_nil_iff.mpr
  intro label member
  have ordinary := hostless label (FinSet.mem_toList.mp member)
  unfold HostPart.ofLabel?
  cases kind : label.kind <;> simp_all [Kind.isForeign]

theorem of_noLabels (none : v.labels = ∅) : v.Hostless := by
  intro label member
  rw [none] at member
  cases member

theorem join (left : v.Hostless) (right : w.Hostless) : (v.join w).Hostless := by
  intro label member
  exact (mem_labels_of_join member).elim (left label) (right label)

end Value.Hostless

theorem Value.closed_hostless {label : Label} (ordinary : label.kind.isForeign = false) :
    Closed Hostless label where
  flags := fun _ _ => .of_noLabels rfl
  string := fun _ => .of_noLabels rfl
  object := fun _ member => FinSet.mem_singleton.mp member ▸ ordinary
  join := .join
  reflag := fun hostless _ _ => hostless
  collapse := id

/-- A run of nodes keeps a closed property of every value. -/
theorem Contents.Each.run {P : Value → Prop} {program : FlowGraph} {nodes : List Node}
    (closed : ∀ node ∈ nodes, Value.Closed P node.label) {c d : Contents} (each : c.Each P)
    (done : c.run program nodes = .ok d) : d.Each P := by
  induction nodes generalizing c with
  | nil =>
      cases done
      exact each
  | cons node rest ih =>
      rw [run_cons] at done
      obtain ⟨c', stepped, done⟩ := of_bind_eq_ok done
      have next := (steps_of_step stepped).each (closed node List.mem_cons_self) each
      exact ih (fun other member => closed other (List.mem_cons_of_mem _ member)) next done

/-- Whether an operation reads the variable. -/
def Operation.readsVariable (name : String) : Operation → Bool
  | .readVariable _ other => other = name
  | _ => false

/-! ### Falling back -/

namespace Transfer

variable {σ α β : Type} {m : Machine σ}

/-- On a machine the transfer does what another one does, or it fails with an error that an analysis
    has to stop at. -/
def Defers (x y : Transfer σ α) (m : Machine σ) : Prop :=
  x.run.run m = y.run.run m ∨ ∃ e m', x.run.run m = (.error e, m') ∧ e.isFatal = true

namespace Defers

theorem refl (x : Transfer σ α) (m : Machine σ) : x.Defers x m := .inl rfl

/-- A look at the machine that the other transfer does not take. -/
theorem read {x : Transfer σ α} {f : α → Transfer σ β} {y : Transfer σ β} {r : Except Error α}
    (first : x.Reads m r) (missing : FailsOnly Error.Missing r)
    (rest : ∀ a, r = .ok a → (f a).Defers y m) : Transfer.Defers (x >>= f) y m := by
  cases r with
  | error e =>
      exact .inr ⟨e, m, run_bind_of_error f first, (missing e rfl).isFatal⟩
  | ok a =>
      have later := rest a rfl
      unfold Transfer.Defers at later ⊢
      rw [run_bind_of_ok f first]
      exact later

theorem bind {x y : Transfer σ α} {f g : α → Transfer σ β} (first : x.Defers y m)
    (rest : ∀ a m', y.run.run m = (.ok a, m') → (f a).Defers (g a) m') :
    Transfer.Defers (x >>= f) (y >>= g) m := by
  rcases first with same | ⟨e, m', failed, fatal⟩
  · rcases ran : y.run.run m with ⟨e | a, m'⟩
    · refine .inl ?_
      rw [run_bind_of_error f (same.trans ran), run_bind_of_error g ran]
    · have later := rest a m' ran
      unfold Transfer.Defers at later ⊢
      rw [run_bind_of_ok f (same.trans ran), run_bind_of_ok g ran]
      exact later
  · exact .inr ⟨e, m', run_bind_of_error f failed, fatal⟩

theorem unexpected (node : Node) (y : Transfer σ α) : (Transfer.unexpected node).Defers y m :=
  .inr ⟨_, m, rfl, rfl⟩

/-! The handlers, over any rule to fall back on. -/

variable (rule : Rule σ) {setting : Setting σ} {node : Node}

theorem readVariable
    (avoids : node.operation.readsVariable setting.options.foreignRootName = false) :
    (Foreign.readVariable rule setting node).Defers (rule setting node) m := by
  obtain ⟨index, block, operation⟩ := node
  cases operation with
  | readVariable result name =>
      apply read (.currentFunction setting m) (.function _ _)
      intro f _
      have other : name ≠ setting.options.foreignRootName := of_decide_eq_false avoids
      rw [if_pos (by simp [other])]
      exact refl _ m
  | _ => exact unexpected _ _

/-- A handler that looks at a register first. -/
theorem readRegister (each : m.state.contents.Each Value.Hostless) (r : Register)
    {f : Value → Transfer σ α} {y : Transfer σ α}
    (rest : ∀ v : Value, v.hostParts = [] → (f v).Defers y m) :
    Transfer.Defers (Transfer.readRegister r >>= f) y m := by
  apply read (.readRegister m r) (.readRegister _ r)
  intro v found
  apply rest
  exact Value.Hostless.hostParts (each.registers r v (Contents.registers_of_readRegister found))

variable (each : m.state.contents.Each Value.Hostless)

include each

theorem readProperty : (Foreign.readProperty rule setting node).Defers (rule setting node) m := by
  obtain ⟨index, block, operation⟩ := node
  cases operation with
  | readProperty result base property =>
      apply readRegister each base
      intro v none
      simp only [none]
      exact refl _ m
  | _ => exact unexpected _ _

theorem writeProperty : (Foreign.writeProperty rule setting node).Defers (rule setting node) m := by
  obtain ⟨index, block, operation⟩ := node
  cases operation with
  | writeProperty base property r =>
      apply readRegister each base
      intro v none
      simp only [none]
      exact refl _ m
  | _ => exact unexpected _ _

theorem writeVariable : (Foreign.writeVariable rule setting node).Defers (rule setting node) m := by
  obtain ⟨index, block, operation⟩ := node
  cases operation with
  | writeVariable name r =>
      apply readRegister each r
      intro v none
      simp only [none]
      exact refl _ m
  | _ => exact unexpected _ _

theorem construct (operands : CallOperands) :
    (Foreign.construct rule setting node operands).Defers (rule setting node) m := by
  unfold Foreign.construct
  cases operands.function with
  | none => exact refl _ m
  | some function =>
      apply readRegister each function
      intro v none
      simp only [none]
      exact refl _ m

theorem call : (Foreign.call rule setting node).Defers (rule setting node) m := by
  obtain ⟨index, block, operation⟩ := node
  cases operation with
  | call operands =>
      obtain ⟨result, base, property, function, arguments, constructor⟩ := operands
      cases constructor with
      | true => exact construct rule each _
      | false =>
          cases base with
          | none => exact refl _ m
          | some base =>
              cases property with
              | none => exact refl _ m
              | some name =>
                  apply readRegister each base
                  intro v none
                  simp only [none]
                  exact refl _ m
  | _ => exact unexpected _ _

end Defers

end Transfer

/-! ### Blocks -/

namespace Dispatcher

variable {σ : Type} {setting : Setting σ}

/-- Without host values the layer runs a node by its ordinary rule, or stops. -/
theorem dispatch_layered {node : Node} {m : Machine σ}
    (avoids : node.operation.readsVariable setting.options.foreignRootName = false)
    (each : m.state.contents.Each Value.Hostless) :
    ((base.withLayer Foreign.layer).dispatch setting node).Defers (base.dispatch setting node) m := by
  rw [dispatch_base]
  unfold dispatch
  rw [effective_layered]
  obtain ⟨index, block, operation⟩ := node
  cases operation with
  | readVariable => exact .readVariable fallback avoids
  | writeVariable => exact .writeVariable fallback each
  | readProperty => exact .readProperty fallback each
  | writeProperty => exact .writeProperty fallback each
  | call => exact .call fallback each
  | constant | newObject | binaryOperator | foreignMarker | nop => exact .refl _ m

/-- Without host values the layer runs a block as the ordinary rules do, or stops. -/
theorem transferNodes_layered (block : Nat) {nodes : List Node}
    (avoids : ∀ node ∈ nodes,
      node.operation.readsVariable setting.options.foreignRootName = false)
    {m : Machine σ} (each : m.state.contents.Each Value.Hostless) :
    ((base.withLayer Foreign.layer).transferNodes setting block nodes).Defers
      (base.transferNodes setting block nodes) m := by
  induction nodes generalizing m with
  | nil =>
      unfold transferNodes
      exact .refl _ m
  | cons node rest ih =>
      unfold transferNodes
      apply Transfer.Defers.bind (dispatch_layered (avoids node List.mem_cons_self) each)
      intro handover m' ran
      obtain ⟨rfl, c, stepped, after⟩ := of_dispatch_base ran
      refine ih (fun other member => avoids other (List.mem_cons_of_mem _ member)) ?_
      rw [after.contents]
      exact (Contents.steps_of_step stepped).each (Value.closed_hostless rfl) each

end Dispatcher

/-! ### Questions to the host -/

namespace Transfer

variable {σ α : Type}

/-- The transfer leaves the memory of the host as it is, and logs no question. -/
abbrev Unasked (host : σ) (questions : List Event) (x : Transfer σ α) : Prop :=
  Fallible.Safe (fun m => m.host = host ∧ m.toWorld.questions = questions) (fun _ => True) x
    fun _ => True

namespace Unasked

variable {host : σ} {questions : List Event}

/-- The ordinary rules leave the host alone. -/
theorem transferNodes (setting : Setting σ) (block : Nat) (nodes : List Node) :
    Unasked host questions (Dispatcher.base.transferNodes setting block nodes) := by
  refine (Dispatcher.safe_transferNodes_base ?_ block nodes).mono (fun _ _ => trivial)
    fun _ _ => trivial
  rintro node m m' c ⟨same, logged⟩ _ after
  exact ⟨after.host.trans same, after.questions.trans logged⟩

end Unasked

end Transfer

end ScriptHeap
