import ScriptHeap.Datum
import ScriptHeap.Decimal.Layout
import ScriptHeap.Text.Quoted

/-!
# Operations

The operations of the analysed program work on numbered registers. Each has a kind, which selects
its transfer function.
-/

namespace ScriptHeap

/-- A register, local to a function activation. -/
abbrev Register := Nat

/-- The text of a register. -/
def registerText (r : Register) : String :=
  "v" ++ toString r

/-- A literal operand. -/
inductive Constant where
  | undefined
  | null
  | boolean (b : Bool)
  | number (x : Float)
  | string (s : String)
deriving Inhabited

namespace Constant

/-- The text of a literal. -/
def text : Constant → String
  | .undefined => "undefined"
  | .null => "null"
  | .boolean b => if b then "true" else "false"
  | .number x => Decimal.Layout.listing.text x
  | .string s => Text.quoted s

/-- The data of a literal. -/
def schema : Schema :=
  .cases ["Undefined", "Null"] [("Boolean", .bool), ("Number", .number), ("String", .text)]

/-- A literal as data. -/
def toDatum : Constant → Datum
  | .undefined => .case "Undefined"
  | .null => .case "Null"
  | .boolean b => .tagged "Boolean" (.bool b)
  | .number x => .tagged "Number" (.number x)
  | .string s => .tagged "String" (.text s)

/-- The literal of data. -/
def ofDatum? : Datum → Option Constant
  | .case "Undefined" => some .undefined
  | .case "Null" => some .null
  | .tagged "Boolean" payload => payload.bool?.map .boolean
  | .tagged "Number" payload => payload.number?.map .number
  | .tagged "String" payload => payload.text?.map .string
  | _ => none

end Constant

/-- A binary operator. -/
inductive BinaryOperator where
  | add
  | sub
  | mul
  | div
  | eq
  | strictEq
  | lt
deriving DecidableEq, Repr, Inhabited

namespace BinaryOperator

/-- Every operator. -/
def all : List BinaryOperator := [.add, .sub, .mul, .div, .eq, .strictEq, .lt]

/-- The sign of an operator. -/
def text : BinaryOperator → String
  | .add => "+"
  | .sub => "-"
  | .mul => "*"
  | .div => "/"
  | .eq => "=="
  | .strictEq => "==="
  | .lt => "<"

/-- The name of an operator in data. -/
def caseName : BinaryOperator → String
  | .add => "Add"
  | .sub => "Sub"
  | .mul => "Mul"
  | .div => "Div"
  | .eq => "Eq"
  | .strictEq => "StrictEq"
  | .lt => "Lt"

/-- The data of an operator. -/
def schema : Schema :=
  .cases (all.map caseName) []

/-- An operator as data. -/
def toDatum (op : BinaryOperator) : Datum :=
  .case op.caseName

/-- The operator of data. -/
def ofDatum? : Datum → Option BinaryOperator
  | .case name => all.find? fun op => op.caseName == name
  | _ => none

end BinaryOperator

/-- The name operand of a property access. -/
inductive PropertyName where
  /-- A name written in the program. -/
  | fixed (name : String)
  /-- The value of a register. -/
  | dynamic (register : Register)
deriving DecidableEq, Repr, Inhabited

namespace PropertyName

/-- The name, if it is written in the program. -/
def fixed? : PropertyName → Option String
  | .fixed name => some name
  | .dynamic _ => none

/-- The text of a name operand, as it follows the base of an access. -/
def text : PropertyName → String
  | .fixed name => "." ++ name
  | .dynamic r => "[" ++ registerText r ++ "]"

/-- The data of a name operand. -/
def schema : Schema :=
  .cases [] [("Fixed", .text), ("Dynamic", .word)]

/-- A name operand as data. -/
def toDatum : PropertyName → Datum
  | .fixed name => .tagged "Fixed" (.text name)
  | .dynamic r => .tagged "Dynamic" (.word r)

/-- The name operand of data. -/
def ofDatum? : Datum → Option PropertyName
  | .tagged "Fixed" payload => payload.text?.map .fixed
  | .tagged "Dynamic" payload => payload.word?.map .dynamic
  | _ => none

end PropertyName

/-- The kinds of operations. -/
inductive OperationKind where
  | constant
  | readVariable
  | writeVariable
  | readProperty
  | writeProperty
  | newObject
  | call
  | binaryOperator
  | foreignMarker
  | nop
deriving DecidableEq, Repr, Inhabited

namespace OperationKind

/-- Every kind, in order. -/
def all : List OperationKind :=
  [.constant, .readVariable, .writeVariable, .readProperty, .writeProperty, .newObject, .call,
    .binaryOperator, .foreignMarker, .nop]

/-- The name of a kind. -/
def name : OperationKind → String
  | .constant => "Constant"
  | .readVariable => "ReadVariable"
  | .writeVariable => "WriteVariable"
  | .readProperty => "ReadProperty"
  | .writeProperty => "WriteProperty"
  | .newObject => "NewObject"
  | .call => "Call"
  | .binaryOperator => "BinaryOperator"
  | .foreignMarker => "ForeignMarker"
  | .nop => "Nop"

/-- The kind with a given name. -/
def ofName? (s : String) : Option OperationKind :=
  all.find? fun kind => kind.name == s

instance : Ord OperationKind := ⟨compareOn OperationKind.ctorIdx⟩

instance : Std.TransOrd OperationKind :=
  inferInstanceAs (Std.TransCmp (compareOn OperationKind.ctorIdx))

instance : Std.LawfulEqOrd OperationKind where
  eq_of_compare {a b} h := by
    have same : a.ctorIdx = b.ctorIdx := Std.LawfulEqOrd.eq_of_compare h
    cases a <;> cases b <;> first | rfl | exact absurd same (by decide)

end OperationKind

/-- The operands of a call. A method call has a base and a property, any other call a function
    register. -/
structure CallOperands where
  result : Option Register
  base : Option Register
  property : Option String
  function : Option Register
  arguments : List Register
  constructor : Bool
deriving DecidableEq, Repr, Inhabited

/-- An operation of the analysed program. -/
inductive Operation where
  | constant (result : Register) (value : Constant)
  | readVariable (result : Register) (name : String)
  | writeVariable (name : String) (value : Register)
  /-- A read without a result is there for its effects alone. -/
  | readProperty (result : Option Register) (base : Register) (property : PropertyName)
  | writeProperty (base : Register) (property : PropertyName) (value : Register)
  | newObject (result : Register)
  | call (operands : CallOperands)
  | binaryOperator (result : Register) (op : BinaryOperator) (lhs rhs : Register)
  /-- A point where control crosses into the host language. It has no effect on the state. -/
  | foreignMarker (definitionSite : Nat)
  | nop
deriving Inhabited

namespace Operation

/-- The call of a method. -/
def methodCall (result : Option Register) (base : Register) (name : String)
    (arguments : List Register) : Operation :=
  .call ⟨result, some base, some name, none, arguments, false⟩

/-- The call of a function. -/
def functionCall (result : Option Register) (function : Register) (arguments : List Register) :
    Operation :=
  .call ⟨result, none, none, some function, arguments, false⟩

/-- A constructor call. -/
def construct (result function : Register) (arguments : List Register) : Operation :=
  .call ⟨some result, none, none, some function, arguments, true⟩

/-- The kind of an operation. -/
def kind : Operation → OperationKind
  | .constant .. => .constant
  | .readVariable .. => .readVariable
  | .writeVariable .. => .writeVariable
  | .readProperty .. => .readProperty
  | .writeProperty .. => .writeProperty
  | .newObject .. => .newObject
  | .call .. => .call
  | .binaryOperator .. => .binaryOperator
  | .foreignMarker .. => .foreignMarker
  | .nop => .nop

/-- The register that an operation writes. -/
def result? : Operation → Option Register
  | .constant result _ | .readVariable result _ | .newObject result
  | .binaryOperator result _ _ _ => some result
  | .readProperty result _ _ => result
  | .call operands => operands.result
  | .writeVariable _ _ | .writeProperty _ _ _ | .foreignMarker _ | .nop => none

/-- The text of the target of a call. -/
def calleeText (operands : CallOperands) : String :=
  match operands.base, operands.property, operands.function with
  | some base, some property, _ => registerText base ++ "." ++ property
  | _, _, some function => registerText function
  | _, _, none => "?"

/-- The text of an operation. -/
def text : Operation → String
  | .constant result value => registerText result ++ " = " ++ value.text
  | .readVariable result name => registerText result ++ " = " ++ name
  | .writeVariable name value => name ++ " = " ++ registerText value
  | .readProperty (some result) base property =>
    registerText result ++ " = " ++ registerText base ++ property.text
  | .readProperty none base property => registerText base ++ property.text
  | .writeProperty base property value =>
    registerText base ++ property.text ++ " = " ++ registerText value
  | .newObject result => registerText result ++ " = \x7b\x7d"
  | .call operands =>
    let target := (operands.result.map fun r => registerText r ++ " = ").getD ""
    let new := if operands.constructor then "new " else ""
    target ++ new ++ calleeText operands ++ "("
      ++ ", ".intercalate (operands.arguments.map registerText) ++ ")"
  | .binaryOperator result op lhs rhs =>
    registerText result ++ " = " ++ registerText lhs ++ " " ++ op.text ++ " " ++ registerText rhs
  | .foreignMarker site => "foreign-marker " ++ toString site
  | .nop => "nop"

/-- The fields of an operation that has any, by its kind. -/
def fields : OperationKind → List (String × Schema)
  | .constant => [("result", .word), ("value", Constant.schema)]
  | .readVariable => [("result", .word), ("name", .text)]
  | .writeVariable => [("name", .text), ("value", .word)]
  | .readProperty =>
    [("result", .option .word), ("base", .word), ("property", PropertyName.schema)]
  | .writeProperty => [("base", .word), ("property", PropertyName.schema), ("value", .word)]
  | .newObject => [("result", .word)]
  | .call =>
    [("result", .option .word), ("base", .option .word), ("property", .option .text),
      ("function", .option .word), ("arguments", .list .word), ("constructor", .bool)]
  | .binaryOperator =>
    [("result", .word), ("op", BinaryOperator.schema), ("lhs", .word), ("rhs", .word)]
  | .foreignMarker => [("definition_site", .word)]
  | .nop => []

/-- The data of an operation. -/
def schema : Schema :=
  .cases [OperationKind.nop.name]
    ((OperationKind.all.filter fun kind => kind ≠ .nop).map fun kind =>
      (kind.name, .record (fields kind)))

/-- The fields of an operation as data, in order. -/
def fieldData : Operation → List Datum
  | .constant result value => [.word result, value.toDatum]
  | .readVariable result name => [.word result, .text name]
  | .writeVariable name value => [.text name, .word value]
  | .readProperty result base property => [.ofOption .word result, .word base, property.toDatum]
  | .writeProperty base property value => [.word base, property.toDatum, .word value]
  | .newObject result => [.word result]
  | .call operands =>
    [.ofOption .word operands.result, .ofOption .word operands.base,
      .ofOption .text operands.property, .ofOption .word operands.function,
      .ofList .word operands.arguments, .bool operands.constructor]
  | .binaryOperator result op lhs rhs => [.word result, op.toDatum, .word lhs, .word rhs]
  | .foreignMarker site => [.word site]
  | .nop => []

/-- An operation as data. -/
def toDatum (op : Operation) : Datum :=
  match op with
  | .nop => .case op.kind.name
  | op => .tagged op.kind.name (.record (((fields op.kind).map Prod.fst).zip op.fieldData))

/-- The operation of a kind with fields. -/
def ofFieldData? : OperationKind → List Datum → Option Operation
  | .constant, [result, value] => do
    return .constant (← result.word?) (← Constant.ofDatum? value)
  | .readVariable, [result, name] => do return .readVariable (← result.word?) (← name.text?)
  | .writeVariable, [name, value] => do return .writeVariable (← name.text?) (← value.word?)
  | .readProperty, [result, base, property] => do
    return .readProperty (← result.option? Datum.word?) (← base.word?)
      (← PropertyName.ofDatum? property)
  | .writeProperty, [base, property, value] => do
    return .writeProperty (← base.word?) (← PropertyName.ofDatum? property) (← value.word?)
  | .newObject, [result] => do return .newObject (← result.word?)
  | .call, [result, base, property, function, arguments, constructor] => do
    return .call ⟨← result.option? Datum.word?, ← base.option? Datum.word?,
      ← property.option? Datum.text?, ← function.option? Datum.word?,
      ← arguments.list? Datum.word?, ← constructor.bool?⟩
  | .binaryOperator, [result, op, lhs, rhs] => do
    return .binaryOperator (← result.word?) (← BinaryOperator.ofDatum? op) (← lhs.word?)
      (← rhs.word?)
  | .foreignMarker, [site] => do return .foreignMarker (← site.word?)
  | _, _ => none

/-- The operation of data. -/
def ofDatum? : Datum → Option Operation
  | .case name => if name = OperationKind.nop.name then some .nop else none
  | .tagged name (.record fields) => do
    ofFieldData? (← OperationKind.ofName? name) (fields.map Prod.snd)
  | _ => none

end Operation

end ScriptHeap
