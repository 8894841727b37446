import ScriptHeap.HeapObject

/-!
# Interning

One interner serves a run of the analysis. It remembers the labels and the tokens that were asked
for; a token is numbered when it is first asked for. A new run starts with nothing remembered and a
number of its own.
-/

namespace ScriptHeap

/-- The labels and tokens of one run. -/
structure Interner where
  run : Nat
  labels : LabelSet
  /-- The tokens of the run, in the order of their creation. -/
  tokens : List Token

namespace Interner

/-- The interner of a run, with nothing remembered. -/
def ofRun (run : Nat) : Interner := ⟨run, ∅, []⟩

/-- The interner of the first run. -/
def initial : Interner := ofRun 0

instance : Inhabited Interner := ⟨initial⟩

/-- Forget everything and start the next run. -/
def reset (t : Interner) : Interner := ofRun (t.run + 1)

/-- Remember a label. -/
def addLabel (t : Interner) (label : Label) : Interner :=
  { t with labels := t.labels.insert label }

/-- The label of this run that equals a given one, if there is one. -/
def findLabel? (t : Interner) (label : Label) : Option Label :=
  t.labels.toList.find? fun known => known = label

/-- The label of this run that equals a given one, which may come from elsewhere. -/
def internLabel (t : Interner) (label : Label) : Label × Interner :=
  match t.findLabel? label with
  | some known => (known, t)
  | none => (label, t.addLabel label)

/-- Put the label of this run in the place of one that a value has. -/
def internOccurrence (interned : Value × Interner) (label : Label) : Value × Interner :=
  let known := interned.2.internLabel label
  (interned.1.replaceLabel label known.1, known.2)

/-- A value, which may come from elsewhere, with the labels of this run in the place of its own. -/
def internValue (t : Interner) (v : Value) : Value × Interner :=
  v.allLabels.toList.foldl internOccurrence (v, t)

/-- The token with a reason, if it was asked for in this run. -/
def findToken? (t : Interner) (reason : SplitReason) : Option Token :=
  t.tokens.find? fun token => token.reason = reason

/-- The token with a reason. -/
def token (t : Interner) (reason : SplitReason) : Token × Interner :=
  match t.findToken? reason with
  | some token => (token, t)
  | none =>
    let token := reason.token ⟨t.run, t.tokens.length⟩
    (token, { t with tokens := t.tokens ++ [token] })

/-- The object of a template of this run. -/
def template (t : Interner) (template : Template) : HeapObject :=
  .ofTemplate t.run template

end Interner

end ScriptHeap
