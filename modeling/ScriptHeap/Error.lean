import ScriptHeap.Program.Operation
import ScriptHeap.Value.Printer

/-!
# Errors

What can go wrong, by cause. Errors of the host's side are the only ones that an analysis may pass
over; they say where they arose.
-/

namespace ScriptHeap

/-- Causes in the analysed program. -/
inductive AnalysisCause where
  /-- A register was read that was never written. -/
  | undefinedRegister (r : Register)
  /-- A label has no object in the heap. -/
  | noHeapObject (label : Label)
  /-- The iteration was cut off. -/
  | noFixedPoint (bound : Nat)
  /-- A cause given in words. -/
  | stated (message : String)
deriving DecidableEq

namespace AnalysisCause

/-- The wording of a cause. -/
def message : AnalysisCause → String
  | .undefinedRegister r => "Reading undefined register " ++ registerText r
  | .noHeapObject label => "No heap object for " ++ label.text
  | .noFixedPoint bound => "No fixed point after " ++ toString bound ++ " iterations"
  | .stated message => message

end AnalysisCause

/-- Causes on the host's side. -/
inductive HostCause where
  /-- A property of a host value is named by a symbol. -/
  | symbolProperty (label : Label) (node : Nat)
  /-- A property of a host value has no name that is known. -/
  | unknownName (node : Nat)
  /-- The class name given to the type constructor is not known. -/
  | argumentNotConstant (root constructor : String) (node : Nat)
  /-- There is no class of that name. -/
  | unknownClass (className : String)
  /-- A class has no member of that sort and name. -/
  | noMember (className sort name : String)
  /-- A receiver is not a host value. -/
  | notForeign (receiver : Value)
  /-- A class has no instances. -/
  | notConstructible (className : String)
  /-- A cause given in words. -/
  | stated (message : String)
deriving DecidableEq

namespace HostCause

/-- The wording of a cause. -/
def message : HostCause → String
  | .symbolProperty label node =>
    "Symbol property " ++ label.text ++ " of a foreign value at node " ++ toString node
  | .unknownName node =>
    "Property name of a foreign access at node " ++ toString node ++ " is not a known string"
  | .argumentNotConstant root constructor node =>
    "Argument of " ++ root ++ "." ++ constructor ++ " at node " ++ toString node
      ++ " is not a constant string"
  | .unknownClass className => "Unknown foreign class " ++ className
  | .noMember className sort name =>
    "Foreign class " ++ className ++ " has no " ++ sort ++ " " ++ name
  | .notForeign receiver => "Receiver " ++ receiver.text ++ " is not a foreign object"
  | .notConstructible className => "Foreign class " ++ className ++ " can not be constructed"
  | .stated message => message

end HostCause

/-- Causes that a well-formed program and a correct use of this library rule out. -/
inductive InvariantCause where
  /-- A frozen object was to be changed. -/
  | frozenObject
  /-- A default was to describe properties that are certainly present. -/
  | illegalDefault (numeric : Bool) (value : Value)
  /-- The scope of an object was read while it was unknown. -/
  | readUnknownScope
  /-- The scope of an object was extended while it was unknown. -/
  | extendUnknownScope
  /-- A handler was given an operation of another kind. -/
  | unexpectedOperation (kind : OperationKind) (node : String)
  /-- A label of a host value carries no class name. -/
  | noClassName (label : Label)
  /-- The transfer of the ordinary part of a node handed on the state by itself. -/
  | ordinaryPartHandled (node : Nat)
  /-- No handler exists for a kind of operation. -/
  | noHandler (kind : OperationKind)
  /-- A node handed on the state before the end of its block. -/
  | nodesLeft (node block left : Nat)
  /-- A call stands before the end of its block. -/
  | callInsideBlock (node block : Nat)
  /-- A marker shares its block with other nodes. -/
  | markerNotAlone (block others : Nat)
  /-- The block of a marker has several successors. -/
  | markerSuccessors (block successors : Nat)
  /-- A flow graph has no program body. -/
  | noProgramBody
  /-- A block does not have exactly one successor. -/
  | notOneSuccessor (block successors : Nat)
  /-- A block was to be analysed before a state had reached it. -/
  | noState (point : ProgramPoint)
  /-- A cause given in words. -/
  | stated (message : String)
deriving DecidableEq

namespace InvariantCause

/-- The wording of a cause. -/
def message : InvariantCause → String
  | .frozenObject => "Attempt to modify non-writable Obj"
  | .illegalDefault numeric value =>
    "Illegal default " ++ (if numeric then "numeric" else "non-numeric") ++ " property: "
      ++ value.text
  | .readUnknownScope => "Calling scope_chain when scope is 'unknown'"
  | .extendUnknownScope => "Calling add_to_scope_chain when scope is 'unknown'"
  | .unexpectedOperation kind node =>
    "Unexpected operation for " ++ kind.name ++ " handler: " ++ node
  | .noClassName label => "Foreign label " ++ label.text ++ " has no class name"
  | .ordinaryPartHandled node =>
    "Base transfer of node " ++ toString node ++ " propagated the state itself"
  | .noHandler kind => "No transfer function for " ++ kind.name
  | .nodesLeft node block left =>
    "Node " ++ toString node ++ " propagated block " ++ toString block ++ " with "
      ++ toString left ++ " nodes left"
  | .callInsideBlock node block =>
    "Call at node " ++ toString node ++ " does not end block " ++ toString block
  | .markerNotAlone block others =>
    "Foreign marker in block " ++ toString block ++ " shares the block with " ++ toString others
      ++ " other nodes"
  | .markerSuccessors block successors =>
    "Foreign marker block " ++ toString block ++ " has " ++ toString successors ++ " successors"
  | .noProgramBody => "Flow graph has no program body"
  | .notOneSuccessor block successors =>
    "Block " ++ toString block ++ " has " ++ toString successors
      ++ " successors, expected exactly one"
  | .noState point =>
    "Block " ++ toString point.block ++ " in context " ++ point.context.text
      ++ " was queued without a state"
  | .stated message => message

end InvariantCause

/-- An error. -/
inductive Error where
  | analysis (cause : AnalysisCause)
  /-- An error of the host's side, with the run and the point where it arose once they are known. -/
  | host (cause : HostCause) (run : Option Nat) (location : Option ProgramPoint)
  /-- An error given in words. -/
  | custom (message : String)
  /-- There is no function of that index. -/
  | functionNotFound (index : Nat)
  | blockNotFound (index : Nat)
  | nodeNotFound (index : Nat)
  | vertexNotFound (index : Nat)
  | invariant (cause : InvariantCause)
  /-- Text or data in JSON could not be read or written. -/
  | json
deriving DecidableEq

namespace Error

/-- An error of the host's side, not placed yet. -/
def ofHost (cause : HostCause) : Error :=
  .host cause none none

/-- Say where an error of the host's side arose, unless it says so itself. -/
def locate (e : Error) (run : Nat) (location : ProgramPoint) : Error :=
  match e with
  | .host cause oldRun oldLocation =>
    .host cause (oldRun <|> some run) (oldLocation <|> some location)
  | e => e

/-- Whether an analysis has to stop at the error. -/
def isFatal : Error → Bool
  | .host _ _ _ => false
  | _ => true

/-- The wording of an error. -/
def message : Error → String
  | .analysis cause => "Analysis error: " ++ cause.message
  | .host cause _ location =>
    "Cross-language analysis error: " ++ cause.message
      ++ (location.map fun point => " at " ++ point.text).getD ""
  | .custom message => message
  | .functionNotFound index => "No function with index " ++ toString index
  | .blockNotFound index => "Flow graph block " ++ toString index ++ " not found"
  | .nodeNotFound index => "Flow graph node " ++ toString index ++ " not found"
  | .vertexNotFound index => "Graph vertex " ++ toString index ++ " not found"
  | .invariant cause => "Internal invariant violated: " ++ cause.message
  | .json => "JSON error"

end Error

end ScriptHeap
