import ScriptHeap.Transfer.Machine

/-!
# Ordinary rules

The rules of the analysed language itself, one for each kind of operation. Calls are not resolved: a
constructor call makes a new object, any other call has some primitive value.
-/

namespace ScriptHeap

/-- The value of a literal. Numbers are not told apart. -/
def Constant.value : Constant → Value
  | .undefined => .undefined
  | .null => .null
  | .boolean b => .bool b
  | .number _ => .anyNumber
  | .string s => .ofString s

/-- The value of a sum. Known strings are put together; a string or an object makes a sum that may
    be a string. -/
def BinaryOperator.sum (lhs rhs : Value) : Value :=
  match lhs.exactString?, rhs.exactString? with
  | some l, some r => .ofString (l ++ r)
  | _, _ =>
    if lhs.maybeString || rhs.maybeString || lhs.maybeObject || rhs.maybeObject then
      Value.anyString.join .anyNumber
    else .anyNumber

/-- The value of an operator. -/
def BinaryOperator.value (op : BinaryOperator) (lhs rhs : Value) : Value :=
  match op with
  | .add => sum lhs rhs
  | .sub | .mul | .div => .anyNumber
  | .eq | .strictEq | .lt => .anyBool

namespace Ordinary

open Transfer

variable {σ : Type}

/-- Write a literal to a register. -/
def constant : Rule σ := fun _ node => do
  match node.operation with
  | .constant result c =>
    writeResult node result c.value
    return .pending
  | _ => unexpected node

/-- Read a variable. -/
def readVariable : Rule σ := fun setting node => do
  match node.operation with
  | .readVariable result name =>
    let f ← currentFunction setting
    let m ← get
    let (v, interner) := m.state.readVariable m.interner f name
    intern fun _ => interner
    notify (.variable node.index name v m.state.context)
    writeResult node result v
    return .pending
  | _ => unexpected node

/-- Keep the `arguments` object of a function in step with a parameter that is written. -/
def writeArgument (f : Function) (name : String) (v : Value) : Transfer σ Unit := do
  match f.parameterIndex? name with
  | none => return ()
  | some index =>
    let label := Label.arguments f.index
    intern (·.addLabel label)
    if (← state).heap.contains label then
      changeState fun s => s.writeProperty (FinSet.singleton label) (.name (toString index)) v

/-- Write a variable, and everything that goes with it: the `arguments` object, the log, and what
    the register equals. -/
def recordVariableWrite (setting : Setting σ) (node : Node) (name : String) (r : Register)
    (v : Value) : Transfer σ Unit := do
  let f ← currentFunction setting
  let m ← get
  let (written, interner) := m.state.writeVariable m.interner f name v
  intern fun _ => interner
  let (labels, s) ← ofResult written
  modifyState fun _ => s
  writeArgument f name v
  notify (.variable node.index name v (← state).context)
  notify (.propertyWrite node.index labels (.name name))
  match labels.toList with
  | label :: _ => modifyState fun s => s.addMustEquals r label (.name name)
  | [] => return ()

/-- Write a variable. -/
def writeVariable : Rule σ := fun setting node => do
  match node.operation with
  | .writeVariable name r =>
    let v ← readRegister r
    recordVariableWrite setting node name r v.withoutAttributes.collapse
    return .pending
  | _ => unexpected node

/-- Read a property. Primitive values have properties that are not known. -/
def readProperty : Rule σ := fun _ node => do
  match node.operation with
  | .readProperty result base property =>
    let baseValue ← readRegister base
    let key ← propertyKey? property
    let s ← state
    let raw :=
      match key with
      | some key => s.readProperty baseValue.labels key
      | none => s.readAnyProperty baseValue.labels
    let v := State.readAs raw
    let v := if baseValue.maybePrimitive then v.join .anyPrimitive else v
    match result with
    | none => pure ()
    | some r =>
      writeResult node r v
      match key, baseValue.labels.toList with
      | some key, [label] => modifyState fun s => s.addMustEquals r label key
      | _, _ => pure ()
    return .pending
  | _ => unexpected node

/-- Write a property. -/
def writeProperty : Rule σ := fun _ node => do
  match node.operation with
  | .writeProperty base property r =>
    let labels := (← readRegister base).labels
    let v := (← readRegister r).withoutAttributes
    match ← propertyKey? property with
    | some key =>
      notify (.propertyWrite node.index labels key)
      changeState fun s => s.writeProperty labels key v
    | none => changeState fun s => s.writeAnyProperty labels v
    return .pending
  | _ => unexpected node

/-- Make a new object. All objects that a node makes have one label. -/
def makeObject (node : Node) : Transfer σ Value := do
  let label : Label := ⟨node.index, .object, none⟩
  allocate label
  return .object label

/-- Make a new object. -/
def newObject : Rule σ := fun _ node => do
  match node.operation with
  | .newObject result =>
    writeResult node result (← makeObject node)
    return .pending
  | _ => unexpected node

/-- A call that is not resolved. -/
def call : Rule σ := fun _ node => do
  match node.operation with
  | .call operands =>
    let _ ← readRegisters operands.arguments
    let v ← if operands.constructor then makeObject node else pure .anyPrimitive
    writeResult? node operands.result v
    return .pending
  | _ => unexpected node

/-- Apply an operator. -/
def binaryOperator : Rule σ := fun _ node => do
  match node.operation with
  | .binaryOperator result op lhs rhs =>
    let lhs ← readRegister lhs
    let rhs ← readRegister rhs
    writeResult node result (op.value lhs rhs)
    return .pending
  | _ => unexpected node

/-- Do nothing. -/
def nop : Rule σ := fun _ _ => return .pending

/-- The rule for a kind of operation. -/
def rule : OperationKind → Rule σ
  | .constant => constant
  | .readVariable => readVariable
  | .writeVariable => writeVariable
  | .readProperty => readProperty
  | .writeProperty => writeProperty
  | .newObject => newObject
  | .call => call
  | .binaryOperator => binaryOperator
  | .foreignMarker | .nop => nop

end Ordinary

end ScriptHeap
