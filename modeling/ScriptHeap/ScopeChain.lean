import ScriptHeap.Relabeling

/-!
# Scope chains

The scope of a function object is a chain of sets of labels, innermost first. The empty chain means
that there is no scope.
-/

namespace ScriptHeap

/-- A chain of scope levels, innermost first. -/
structure ScopeChain where
  levels : List LabelSet
deriving DecidableEq

namespace ScopeChain

/-- No scope. -/
def empty : ScopeChain := ⟨[]⟩

instance : Inhabited ScopeChain := ⟨empty⟩

/-- Whether there is no scope. -/
def isEmpty (chain : ScopeChain) : Bool :=
  chain.levels.isEmpty

/-- Join two lists of levels, the longer one going on alone. Equal lists are taken as they are. -/
def joinLevels : List LabelSet → List LabelSet → List LabelSet
  | [], right => right
  | left, [] => left
  | a :: left, b :: right =>
    if a :: left = b :: right then a :: left else (a ∪ b) :: joinLevels left right

/-- Join two chains level by level. -/
def join (a b : ScopeChain) : ScopeChain :=
  ⟨joinLevels a.levels b.levels⟩

/-- Relabel every level. -/
def relabel (chain : ScopeChain) (r : Relabeling) : ScopeChain :=
  ⟨chain.levels.map r.imageAll⟩

/-- Put one label in the place of another on every level. -/
def replaceLabel (chain : ScopeChain) (old new : Label) : ScopeChain :=
  ⟨chain.levels.map fun level => level.map fun label => if label = old then new else label⟩

/-- The labels of all levels. -/
def labels (chain : ScopeChain) : LabelSet :=
  chain.levels.foldl (· ∪ ·) ∅

/-- Whether a label occurs on some level. -/
def containsLabel (chain : ScopeChain) (label : Label) : Bool :=
  chain.levels.any fun level => level.contains label

/-- The levels with arrows between them. -/
def text (chain : ScopeChain) : String :=
  " -> ".intercalate (chain.levels.map LabelSet.text)

/-- Levels as nested data, `null` when there is none. -/
def levelsToJson : List LabelSet → Json
  | [] => .null
  | level :: rest => .record [("objects", level.toJson), ("next", levelsToJson rest)]

/-- A chain as data. -/
def toJson (chain : ScopeChain) : Json :=
  levelsToJson chain.levels

end ScopeChain

end ScriptHeap
