import ScriptHeap.CallString
import ScriptHeap.Key

/-!
# Partition tokens

A value can be split into parts that are kept apart. A token names a part: it says at which node the
value was split and by what: by the name of a property, by a runtime type, or by the call it came
from, where the result of a call may itself be told apart by a token of the callee.

Tokens are made by a table, which gives each a number: the run it belongs to and its place in the
order of creation. Within one run two tokens with the same reason are the same token, so the number
alone tells them apart. Tokens are ordered by their numbers.
-/

namespace ScriptHeap

/-- Coarse runtime types. -/
inductive TypeTag where
  | string
  | number
  | boolean
  | undef
  | null
  | objObject
  | objFunction
  | objSymbol
  | objArray
  | objRegExp
  | objDate
  | objString
  | objNumber
  | objBoolean
  | objError
  | objMath
  | objActivation
  | objArguments
  | objForeignObject
  | objForeignType
deriving DecidableEq, Repr, Inhabited

namespace TypeTag

/-- Every tag, in order. -/
def all : List TypeTag :=
  [.string, .number, .boolean, .undef, .null, .objObject, .objFunction, .objSymbol, .objArray,
    .objRegExp, .objDate, .objString, .objNumber, .objBoolean, .objError, .objMath, .objActivation,
    .objArguments, .objForeignObject, .objForeignType]

/-- The tag of the objects of a kind. -/
def ofKind : Kind → TypeTag
  | .object => .objObject
  | .function => .objFunction
  | .array => .objArray
  | .symbol => .objSymbol
  | .string => .objString
  | .number => .objNumber
  | .boolean => .objBoolean
  | .date => .objDate
  | .regExp => .objRegExp
  | .error => .objError
  | .math => .objMath
  | .activation => .objActivation
  | .arguments => .objArguments
  | .foreignObject => .objForeignObject
  | .foreignType => .objForeignType
  | .foreignRoot => .objForeignType

/-- The name of a tag in diagnostics. -/
def name : TypeTag → String
  | .string => "String"
  | .number => "Number"
  | .boolean => "Boolean"
  | .undef => "Undef"
  | .null => "Null"
  | .objObject => "OBJ_Object"
  | .objFunction => "OBJ_Function"
  | .objSymbol => "OBJ_Symbol"
  | .objArray => "OBJ_Array"
  | .objRegExp => "OBJ_RegExp"
  | .objDate => "OBJ_Date"
  | .objString => "OBJ_String"
  | .objNumber => "OBJ_Number"
  | .objBoolean => "OBJ_Boolean"
  | .objError => "OBJ_Error"
  | .objMath => "OBJ_Math"
  | .objActivation => "OBJ_activation"
  | .objArguments => "OBJ_arguments"
  | .objForeignObject => "OBJ_Object_Foreign"
  | .objForeignType => "OBJ_Type_Foreign"

/-- The name of a tag in data. -/
def caseName : TypeTag → String
  | .string => "String"
  | .number => "Number"
  | .boolean => "Boolean"
  | .undef => "Undef"
  | .null => "Null"
  | .objObject => "ObjObject"
  | .objFunction => "ObjFunction"
  | .objSymbol => "ObjSymbol"
  | .objArray => "ObjArray"
  | .objRegExp => "ObjRegExp"
  | .objDate => "ObjDate"
  | .objString => "ObjString"
  | .objNumber => "ObjNumber"
  | .objBoolean => "ObjBoolean"
  | .objError => "ObjError"
  | .objMath => "ObjMath"
  | .objActivation => "ObjActivation"
  | .objArguments => "ObjArguments"
  | .objForeignObject => "ObjForeignObject"
  | .objForeignType => "ObjForeignType"

/-- The tag with a given name in data. -/
def ofCaseName? (s : String) : Option TypeTag :=
  all.find? fun tag => tag.caseName == s

instance : Ord TypeTag := ⟨compareOn TypeTag.ctorIdx⟩

instance : Std.TransOrd TypeTag := inferInstanceAs (Std.TransCmp (compareOn TypeTag.ctorIdx))

instance : Std.LawfulEqOrd TypeTag where
  eq_of_compare {a b} h := by
    have same : a.ctorIdx = b.ctorIdx := Std.LawfulEqOrd.eq_of_compare h
    cases a <;> cases b <;> first | rfl | exact absurd same (by decide)

end TypeTag

/-- The number of a token: its run, and its place in the run's order of creation. -/
structure TokenId where
  run : Nat
  serial : Nat
deriving DecidableEq, Repr, Inhabited

namespace TokenId

instance : Ord TokenId := ⟨compareLex (compareOn TokenId.run) (compareOn TokenId.serial)⟩

instance : Std.TransOrd TokenId :=
  inferInstanceAs (Std.TransCmp (compareLex (compareOn TokenId.run) (compareOn TokenId.serial)))

instance : Std.LawfulEqOrd TokenId where
  eq_of_compare {a b} h := by
    have parts := compareLex_eq_eq.mp h
    have runs : a.run = b.run := Std.LawfulEqOrd.eq_of_compare parts.1
    have serials : a.serial = b.serial := Std.LawfulEqOrd.eq_of_compare parts.2
    cases a
    cases b
    simp_all

end TokenId

/-- A partition token: its number and its reason. -/
inductive Token where
  /-- Values read through different property names at a node. -/
  | property (id : TokenId) (node : Nat) (key : Key)
  /-- Values of different types at a node. -/
  | type (id : TokenId) (node : Nat) (tag : TypeTag)
  /-- Any result of the call at a node under a context. -/
  | anyCall (id : TokenId) (node : Nat) (context : CallString)
  /-- The results of the call at a node under a context that carry a token of the callee. -/
  | call (id : TokenId) (node : Nat) (context : CallString) (result : Token)
deriving DecidableEq, Repr, Inhabited

/-- Why a value was split: a token without its number. -/
inductive SplitReason where
  | property (node : Nat) (key : Key)
  | type (node : Nat) (tag : TypeTag)
  /-- The call at a node under a context. Without a token of the callee it is any of its results. -/
  | call (node : Nat) (context : CallString) (result : Option Token)
deriving DecidableEq, Repr, Inhabited

namespace SplitReason

/-- The node where the value was split. -/
def node : SplitReason → Nat
  | .property node _ | .type node _ | .call node _ _ => node

/-- The token with this reason and a given number. -/
def token (id : TokenId) : SplitReason → Token
  | .property node key => .property id node key
  | .type node tag => .type id node tag
  | .call node context none => .anyCall id node context
  | .call node context (some result) => .call id node context result

end SplitReason

namespace Token

/-- The number of a token. -/
def id : Token → TokenId
  | .property id _ _ | .type id _ _ | .anyCall id _ _ | .call id _ _ _ => id

/-- The reason of a token. -/
def reason : Token → SplitReason
  | .property _ node key => .property node key
  | .type _ node tag => .type node tag
  | .anyCall _ node context => .call node context none
  | .call _ node context result => .call node context (some result)

/-- The node where the value was split. -/
def node (token : Token) : Nat :=
  token.reason.node

/-- Whether this is the token of any result of a call. -/
def isAny : Token → Bool
  | .anyCall _ _ _ => true
  | _ => false

/-- Whether two tokens have the same reason, whatever their own numbers. -/
def sameReason (a b : Token) : Bool :=
  a.reason = b.reason

@[simp] theorem id_token (id : TokenId) (reason : SplitReason) : (reason.token id).id = id := by
  cases reason with
  | property | type => rfl
  | call node context result => cases result <;> rfl

@[simp] theorem reason_token (id : TokenId) (reason : SplitReason) :
    (reason.token id).reason = reason := by
  cases reason with
  | property | type => rfl
  | call node context result => cases result <;> rfl

/-- A token is its reason with its number. -/
@[simp] theorem token_reason (token : Token) : token.reason.token token.id = token := by
  cases token <;> rfl

/-- Forget all numbers, those of the tokens inside included. -/
def anonymous : Token → Token
  | .property _ node key => .property ⟨0, 0⟩ node key
  | .type _ node tag => .type ⟨0, 0⟩ node tag
  | .anyCall _ node context => .anyCall ⟨0, 0⟩ node context
  | .call _ node context result => .call ⟨0, 0⟩ node context result.anonymous

/-! ### Order

A token is a chain of steps, one for each call it goes through. Comparing the chains step by step
compares the numbers of the tokens first. -/

/-- One step of a token: its number, its node, and what it splits by. -/
structure Step where
  id : TokenId
  node : Nat
  rank : Nat
  key : Option Key
  tag : Option TypeTag
  context : Option CallString
deriving DecidableEq

namespace Step

instance : Ord Step :=
  ⟨compareLex (compareOn Step.id) (compareLex (compareOn Step.node) (compareLex (compareOn Step.rank)
    (compareLex (compareOn Step.key) (compareLex (compareOn Step.tag) (compareOn Step.context)))))⟩

instance : Std.TransOrd Step :=
  inferInstanceAs (Std.TransCmp (compareLex (compareOn Step.id) (compareLex (compareOn Step.node)
    (compareLex (compareOn Step.rank) (compareLex (compareOn Step.key)
      (compareLex (compareOn Step.tag) (compareOn Step.context)))))))

instance : Std.LawfulEqOrd Step where
  eq_of_compare {a b} h := by
    have first := compareLex_eq_eq.mp h
    have second := compareLex_eq_eq.mp first.2
    have third := compareLex_eq_eq.mp second.2
    have fourth := compareLex_eq_eq.mp third.2
    have fifth := compareLex_eq_eq.mp fourth.2
    have ids : a.id = b.id := Std.LawfulEqOrd.eq_of_compare first.1
    have nodes : a.node = b.node := Std.LawfulEqOrd.eq_of_compare second.1
    have ranks : a.rank = b.rank := Std.LawfulEqOrd.eq_of_compare third.1
    have keys : a.key = b.key := Std.LawfulEqOrd.eq_of_compare fourth.1
    have tags : a.tag = b.tag := Std.LawfulEqOrd.eq_of_compare fifth.1
    have contexts : a.context = b.context := Std.LawfulEqOrd.eq_of_compare fifth.2
    cases a
    cases b
    simp_all

end Step

/-- The chain of steps of a token, outermost first. -/
def steps : Token → List Step
  | .property id node key => [⟨id, node, 0, some key, none, none⟩]
  | .type id node tag => [⟨id, node, 1, none, some tag, none⟩]
  | .anyCall id node context => [⟨id, node, 2, none, none, some context⟩]
  | .call id node context result => ⟨id, node, 3, none, none, some context⟩ :: result.steps

/-- A token is known by its steps. -/
theorem eq_of_steps_eq : ∀ {a b : Token}, a.steps = b.steps → a = b
  | .call _ _ _ result, b, h => by
      cases b with
      | call _ _ _ other =>
          simp only [steps, List.cons.injEq, Step.mk.injEq] at h
          have inner : result = other := eq_of_steps_eq h.2
          simp_all
      | property | type | anyCall => simp [steps] at h
  | .property .., b, h => by cases b <;> simp_all [steps]
  | .type .., b, h => by cases b <;> simp_all [steps]
  | .anyCall .., b, h => by cases b <;> simp_all [steps]

instance : Ord Token := ⟨compareOn Token.steps⟩

instance : Std.TransOrd Token := inferInstanceAs (Std.TransCmp (compareOn Token.steps))

instance : Std.LawfulEqOrd Token where
  eq_of_compare h := eq_of_steps_eq (Std.LawfulEqOrd.eq_of_compare h)

/-! ### Text -/

/-- The text of a token. -/
def text : Token → String
  | .property _ node key => "PROP(node=" ++ toString node ++ ",prop=" ++ key.text ++ ")"
  | .type _ node tag => "TYPE(node=" ++ toString node ++ ",type=" ++ tag.name ++ ")"
  | .anyCall _ node context =>
    "FUN(node=" ++ toString node ++ ",context=" ++ context.text ++ ",token=ANY)"
  | .call _ node context result =>
    "FUN(node=" ++ toString node ++ ",context=" ++ context.text ++ ",token=" ++ result.text ++ ")"

/-- A token as data: its reason, without any number. -/
def toJson : Token → Json
  | .property _ node key =>
    .tagged "key" (.tagged "PropertyName" (.record [("node", .nat node), ("property", key.toJson)]))
  | .type _ node tag =>
    .tagged "key" (.tagged "Type" (.record [("node", .nat node), ("tag", .text tag.caseName)]))
  | .anyCall _ node context =>
    .tagged "key" (.tagged "Function"
      (.record [("node", .nat node), ("context", context.toJson), ("nested", .null)]))
  | .call _ node context result =>
    .tagged "key" (.tagged "Function"
      (.record [("node", .nat node), ("context", context.toJson), ("nested", result.toJson)]))

end Token

end ScriptHeap
