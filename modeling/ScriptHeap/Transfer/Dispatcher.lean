import ScriptHeap.Transfer.Ordinary

/-!
# Dispatching

A handler is a transfer rule that may fall back on the ordinary rules. Handlers come in tables, and
a table may be laid over others: where it has a handler, that one counts. What a handler falls back
on is always the ordinary rules, and never a table below.
-/

namespace ScriptHeap

/-- A transfer rule, given the rule to fall back on. -/
abbrev Handler (σ : Type) := Rule σ → Rule σ

/-- Handlers for some kinds of operations. -/
abbrev HandlerTable (σ : Type) := FinMap OperationKind (Handler σ)

namespace HandlerTable

variable {σ : Type}

/-- The ordinary rules, for every kind of operation. -/
def ordinary : HandlerTable σ :=
  .ofList (OperationKind.all.map fun kind => (kind, fun _ => Ordinary.rule kind))

end HandlerTable

/-- The handlers that count, and the kinds whose handlers come from a layer. -/
structure Dispatcher (σ : Type) where
  effective : HandlerTable σ
  overrides : FinSet OperationKind

namespace Dispatcher

variable {σ : Type}

/-- The dispatcher without layers. -/
def base : Dispatcher σ := ⟨.ordinary, ∅⟩

instance : Inhabited (Dispatcher σ) := ⟨base⟩

/-- Lay a table over the others. -/
def withLayer (d : Dispatcher σ) (layer : HandlerTable σ) : Dispatcher σ where
  effective := d.effective.insertAll layer.toList
  overrides := d.overrides.insertAll layer.keys

/-- The dispatcher with some layers, of which later ones count more. -/
def ofLayers (layers : List (HandlerTable σ)) : Dispatcher σ :=
  layers.foldl withLayer base

/-- Whether a layer has a handler for a kind of operation. -/
def isOverridden (d : Dispatcher σ) (kind : OperationKind) : Bool :=
  d.overrides.contains kind

/-- Run a node by its ordinary rule. -/
def fallback : Rule σ := fun setting node => Ordinary.rule node.kind setting node

/-- Run a node by the handler that counts. -/
def dispatch (d : Dispatcher σ) : Rule σ := fun setting node =>
  match d.effective.get? node.kind with
  | some handler => handler fallback setting node
  | none => throw (.invariant (.noHandler node.kind))

/-- Run the nodes of a block in order. Only the last one may hand on the state by itself. -/
def transferNodes (d : Dispatcher σ) (setting : Setting σ) (block : Nat) :
    List Node → Transfer σ Handover
  | [] => return .pending
  | node :: rest => do
    match ← d.dispatch setting node with
    | .pending => transferNodes d setting block rest
    | .done =>
      if rest.isEmpty then return .done
      else throw (.invariant (.nodesLeft node.index block rest.length))

/-- Run a block. -/
def transferBlock (d : Dispatcher σ) (setting : Setting σ) (block : Block) :
    Transfer σ Handover :=
  d.transferNodes setting block.index block.nodes

end Dispatcher

end ScriptHeap
