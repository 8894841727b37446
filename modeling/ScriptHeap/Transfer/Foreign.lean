import ScriptHeap.Transfer.Dispatcher

/-!
# Rules for host values

Reading the namespace root gives a root object. A call of its type constructor with the name of a
class gives the class, and constructing a class gives an instance. Property accesses and calls on
classes and instances are put to the host.

A value may be a host value and an ordinary one at once. The ordinary part then goes through the
ordinary rule as well. A call that the host gives a result for pushes the state to the next block by
itself.
-/

namespace ScriptHeap.Foreign

open Transfer

variable {σ : Type}

/-- The member under which a constructor call is logged. -/
def constructorMember : String := "<init>"

/-- The class name of a label on the host's side. -/
def className (label : Label) : Transfer σ String :=
  match label.className with
  | some name => return name
  | none => throw (.invariant (.noClassName label))

/-- Whether a value says that a call has no result. -/
def isNoResult (v : Value) : Bool :=
  v.maybeAbsent && !v.maybePresentOrUnknown

/-- The name of a host member, which has to be known. -/
def memberName (node : Node) : Option Key → Transfer σ String
  | some (.name name) => return name
  | some (.symbol label) => throw (.ofHost (.symbolProperty label node.index))
  | none => throw (.ofHost (.unknownName node.index))

/-- Run the ordinary rule while a register holds only the ordinary part of its value. The register
    gets its value back unless it is the result. What the rule wrote as the result is returned. -/
def ordinaryPart (fallback : Rule σ) (setting : Setting σ) (node : Node) (base : Register)
    (ordinary : Value) (result : Option Register) : Transfer σ (Option Value) := do
  let whole ← readRegister base
  modifyState fun s => s.writeRegister base ordinary
  let outcome ← attempt (fallback setting node)
  if result ≠ some base then
    modifyState fun s => s.writeRegister base whole
  match ← ofResult outcome with
  | .done => throw (.invariant (.ordinaryPartHandled node.index))
  | .pending => return result.bind (← state).registers.get?

/-- Run the ordinary rule for the ordinary part of a register, if it has one, for its effects. -/
def runOrdinaryPart (fallback : Rule σ) (setting : Setting σ) (node : Node) (base : Register)
    (v : Value) (result : Option Register) : Transfer σ Unit := do
  if !v.notForeign.isNone then
    let _ ← ordinaryPart fallback setting node base v.notForeign result

/-- Join to a value what the ordinary rule gives for the ordinary part of a register, if it has
    one. -/
def joinOrdinaryPart (fallback : Rule σ) (setting : Setting σ) (node : Node) (base : Register)
    (result : Option Register) (v : Value) : Transfer σ Value := do
  let ordinary := (← readRegister base).notForeign
  if ordinary.isNone then return v
  else
    match ← ordinaryPart fallback setting node base ordinary result with
    | some other => return v.join other
    | none => return v

/-- Finish a call that the host has answered: write the result and push the state on. -/
def finishCall (fallback : Rule σ) (setting : Setting σ) (node : Node) (base : Register)
    (result : Option Register) (v : Value) : Transfer σ Handover := do
  writeResult? node result (← joinOrdinaryPart fallback setting node base result v)
  pushOn setting node
  return .done

/-- Read a variable. The root's name gives the root unless the function declares it. -/
def readVariable : Handler σ := fun fallback setting node => do
  match node.operation with
  | .readVariable result name =>
    let f ← currentFunction setting
    if name ≠ setting.options.foreignRootName || f.declares name then fallback setting node
    else
      let label : Label := ⟨node.index, .foreignRoot, none⟩
      allocate label
      writeResult node result (.object label)
      return .pending
  | _ => unexpected node

/-- Ask the host for a property of each class that a value may belong to. -/
def askProperties (setting : Setting σ) (node : Node) (name : String)
    (parts : List Value.HostPart) : Transfer σ Value :=
  parts.foldlM
    (fun v part => do
      let c ← className part.label
      notify (.hostQuery node.index c name)
      return v.join (← askValue (setting.host.propertyValue c name)))
    .none

/-- Read a property. A read of the type constructor, or one without a result, does nothing to the
    root. -/
def readProperty : Handler σ := fun fallback setting node => do
  match node.operation with
  | .readProperty result base property =>
    let baseValue ← readRegister base
    let asked := baseValue.hostParts.filter fun part => !part.isRoot
    if baseValue.hostParts.isEmpty then fallback setting node
    else if asked.isEmpty then
      if property.fixed? ≠ some setting.options.typeConstructorName && result.isSome then
        fallback setting node
      else
        runOrdinaryPart fallback setting node base baseValue result
        return .pending
    else
      let name ← memberName node (← propertyKey? property)
      let v ← askProperties setting node name asked
      let v ← joinOrdinaryPart fallback setting node base result v
      writeResult? node result v
      return .pending
  | _ => unexpected node

/-- Write a property. Ordinary objects that the base may be keep their old value as well. -/
def writeProperty : Handler σ := fun fallback setting node => do
  match node.operation with
  | .writeProperty base property r =>
    let baseValue ← readRegister base
    let asked := baseValue.hostParts.filter fun part => !part.isRoot
    if asked.isEmpty then fallback setting node
    else
      let name ← memberName node (← propertyKey? property)
      let v ← readRegister r
      asked.forM fun part => do
        notify (.hostQuery node.index (← className part.label) name)
      ask (setting.host.setProperty baseValue name v)
      let ordinary := baseValue.notForeign
      if ordinary.maybeObject then
        notify (.propertyWrite node.index ordinary.labels (.name name))
        changeState fun s => s.weakWriteProperty ordinary.labels (.name name) v.withoutAttributes
      return .pending
  | _ => unexpected node

/-- Write a variable. An instance of a host class is written as it is. -/
def writeVariable : Handler σ := fun fallback setting node => do
  match node.operation with
  | .writeVariable name r =>
    let v ← readRegister r
    if v.hostParts.any Value.HostPart.isObject then
      Ordinary.recordVariableWrite setting node name r v
      return .pending
    else fallback setting node
  | _ => unexpected node

/-- A constructor call. Only a class is constructed by the host. -/
def construct (fallback : Rule σ) (setting : Setting σ) (node : Node) (operands : CallOperands) :
    Transfer σ Handover := do
  match operands.function with
  | none => fallback setting node
  | some function =>
    match (← readRegister function).hostParts.head? with
    | some (.type label) =>
      let c ← className label
      let _ ← readRegisters operands.arguments
      notify (.hostQuery node.index c constructorMember)
      let v ← askValue (setting.host.construct node.index c)
      finishCall fallback setting node function operands.result v
    | _ => fallback setting node

/-- A call of a method of the root. The type constructor gives the class that its only argument
    names. -/
def callRoot (fallback : Rule σ) (setting : Setting σ) (node : Node) (operands : CallOperands)
    (base : Register) (name : String) : Transfer σ Handover := do
  if name ≠ setting.options.typeConstructorName then fallback setting node
  else
    match operands.arguments with
    | [r] =>
      match (← readRegister r).exactString? with
      | none =>
        throw (.ofHost (.argumentNotConstant setting.options.foreignRootName name node.index))
      | some c =>
        let label : Label := ⟨node.index, .foreignType, some c⟩
        allocate label
        let v := (Value.object label).setDontDelete.setDontEnum.setReadOnly
        finishCall fallback setting node base operands.result v
    | _ => fallback setting node

/-- A call of a method of an instance. Without a result of the host the driver goes on. -/
def callObject (fallback : Rule σ) (setting : Setting σ) (node : Node) (operands : CallOperands)
    (base : Register) (baseValue : Value) (name : String) (label : Label) :
    Transfer σ Handover := do
  let c ← className label
  let arguments ← readRegisters operands.arguments
  notify (.hostQuery node.index c name)
  let v ← ask (setting.host.call baseValue name arguments)
  if isNoResult v then
    runOrdinaryPart fallback setting node base baseValue operands.result
    return .pending
  else
    let v ← internValue v
    finishCall fallback setting node base operands.result v

/-- A call of a static method of a class. -/
def callType (fallback : Rule σ) (setting : Setting σ) (node : Node) (operands : CallOperands)
    (base : Register) (name : String) (label : Label) : Transfer σ Handover := do
  let c ← className label
  let _ ← readRegisters operands.arguments
  notify (.hostQuery node.index c name)
  let v ← askValue (setting.host.functionValue c name)
  finishCall fallback setting node base operands.result v

/-- A call. The first host label of the receiver decides how it is made. -/
def call : Handler σ := fun fallback setting node => do
  match node.operation with
  | .call operands =>
    if operands.constructor then construct fallback setting node operands
    else
      match operands.base, operands.property with
      | some base, some name =>
        let baseValue ← readRegister base
        match baseValue.hostParts.head? with
        | none => fallback setting node
        | some (.root _) => callRoot fallback setting node operands base name
        | some (.object label) =>
          callObject fallback setting node operands base baseValue name label
        | some (.type label) => callType fallback setting node operands base name label
      | _, _ => fallback setting node
  | _ => unexpected node

/-- Pass a marker. -/
def marker : Handler σ := fun _ _ node => do
  match node.operation with
  | .foreignMarker _ => return .pending
  | _ => unexpected node

/-- The handlers for host values. -/
def layer : HandlerTable σ :=
  .ofList
    [(.readVariable, readVariable), (.readProperty, readProperty),
      (.writeProperty, writeProperty), (.writeVariable, writeVariable), (.call, call),
      (.foreignMarker, marker)]

end ScriptHeap.Foreign
