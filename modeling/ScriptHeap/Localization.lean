import ScriptHeap.HeapObject

/-!
# Localization

After a return, what is still unknown in an object is recovered from the object as it was at the
call, its template. Every slot is put to a resolver in turn. All keys that the template lists are
listed first, so that no key falls through to a default that has been resolved already.

A resolver can refuse. The object then stays as it is at that moment, partly resolved.
-/

namespace ScriptHeap

/-- Resolves slots of an object against those of its template. -/
structure Resolver (m : Type → Type) where
  /-- The value of a place, given what it holds now and what the template holds. -/
  value : (current template : Value) → Place → m (Except Error Value)
  /-- The scope, given what is known of it now and the template's scope. -/
  scope : (current : Scope) → (template : ScopeChain) → m (Except Error ScopeChain)

namespace Resolver

/-- What an unknown slot takes from the template; other slots keep their value. -/
def localValue (current template : Value) : Value :=
  if current.isUnknown then template else current

/-- What an unknown scope takes from the template; a known scope is kept. -/
def localScope (current : Scope) (template : ScopeChain) : ScopeChain :=
  match current with
  | .unknown => template
  | .known chain => chain

/-- The resolver inside one function: what is unknown is taken from the template. -/
def inFunction : Resolver Id where
  value current template _ := pure (.ok (localValue current template))
  scope current template := pure (.ok (localScope current template))

end Resolver

namespace HeapObject

/-- A computation that changes an object and may stop half-way. -/
abbrev Localizing (m : Type → Type) := ExceptT Error (StateT HeapObject m)

variable {m : Type → Type} [Monad m]

/-- Put a request to the resolver. -/
def request {α : Type} (answer : m (Except Error α)) : Localizing m α :=
  ExceptT.mk (StateT.lift answer)

/-- Change the shape of the object at hand. -/
def reshape (f : Shape → Shape) : Localizing m Unit :=
  modify fun o => { o with shape := f o.shape }

/-- Resolve one of the fixed slots. -/
def localizeSlot (resolver : Resolver m) (template : Shape) (label : Label) (slot : Slot) :
    Localizing m Unit := do
  let current := (← get).shape.getSlot slot
  let v ← request (resolver.value current (template.getSlot slot) ⟨label, slot⟩)
  reshape fun s => s.setSlot slot v

/-- Resolve the scope, unless it is unknown on both sides. -/
def localizeScope (resolver : Resolver m) (template : Shape) : Localizing m Unit := do
  let current := (← get).shape.scope
  if !(current.isUnknown && template.scope.isUnknown) then
    let chain ← request (resolver.scope current template.scope.chain)
    reshape fun s => { s with scope := .known chain }

/-- Resolve the listed properties, all together. -/
def localizeProperties (resolver : Resolver m) (template : Shape) (label : Label) :
    Localizing m Unit := do
  let resolved ← (← get).shape.properties.toList.mapM fun entry => do
    let v ← request (resolver.value entry.2 (template.get entry.1) ⟨label, .property entry.1⟩)
    return (entry.1, v)
  reshape fun s => { s with properties := .ofList resolved }

/-- Recover what is unknown in an object from its template. -/
def localize (resolver : Resolver m) (template : HeapObject) (label : Label) :
    Localizing m Unit := do
  let o ← get
  set (← liftExcept (o.changeProperties fun s => s.materialize template.shape.properties.keys))
  localizeSlot resolver template.shape label .defaultNumeric
  localizeSlot resolver template.shape label .defaultOther
  localizeSlot resolver template.shape label .internalValue
  localizeSlot resolver template.shape label .internalPrototype
  localizeScope resolver template.shape
  localizeProperties resolver template.shape label
where
  liftExcept {α : Type} (r : Except Error α) : Localizing m α := ExceptT.mk (pure r)

end HeapObject

end ScriptHeap
