import ScriptHeap.Json.Basic

/-!
# Call strings

The context in which code is analysed is the list of the call nodes that led to it, the innermost
last, cut to a bounded length from the front.
-/

namespace ScriptHeap

/-- A calling context: the most recent call nodes, innermost last. -/
structure CallString where
  sites : List Nat
deriving DecidableEq, Repr, Inhabited

namespace CallString

/-- The context of the program body. -/
def main : CallString := ⟨[]⟩

/-- The context of a call made at a node, keeping at most `bound` call nodes. -/
def push (context : CallString) (site bound : Nat) : CallString :=
  let sites := context.sites ++ [site]
  ⟨sites.drop (sites.length - bound)⟩

/-- The context with the given call nodes, outermost first. -/
def ofSites (sites : List Nat) : CallString := ⟨sites⟩

instance : Ord CallString := ⟨compareOn CallString.sites⟩

instance : Std.TransOrd CallString := inferInstanceAs (Std.TransCmp (compareOn CallString.sites))

instance : Std.LawfulEqOrd CallString where
  eq_of_compare {a b} h := by
    have same : a.sites = b.sites := Std.LawfulEqOrd.eq_of_compare h
    cases a
    cases b
    simp_all

/-- The call nodes between square brackets. -/
def text (context : CallString) : String :=
  "[" ++ ",".intercalate (context.sites.map toString) ++ "]"

/-- A context as data. -/
def toJson (context : CallString) : Json :=
  .record [("call_string", .array (context.sites.map .nat))]

end CallString

/-- A block under a calling context. -/
structure ProgramPoint where
  block : Nat
  context : CallString
deriving DecidableEq, Repr, Inhabited

namespace ProgramPoint

instance : Ord ProgramPoint :=
  ⟨compareLex (compareOn ProgramPoint.block) (compareOn ProgramPoint.context)⟩

instance : Std.TransOrd ProgramPoint :=
  inferInstanceAs (Std.TransCmp
    (compareLex (compareOn ProgramPoint.block) (compareOn ProgramPoint.context)))

instance : Std.LawfulEqOrd ProgramPoint where
  eq_of_compare {a b} h := by
    have parts := compareLex_eq_eq.mp h
    have blocks : a.block = b.block := Std.LawfulEqOrd.eq_of_compare parts.1
    have contexts : a.context = b.context :=
      Std.LawfulEqOrd.eq_of_compare parts.2
    cases a
    cases b
    simp_all

/-- A program point in a sentence. -/
def text (point : ProgramPoint) : String :=
  "block " ++ toString point.block ++ " in context " ++ point.context.text

/-- A program point as data. -/
def toJson (point : ProgramPoint) : Json :=
  .record [("block", .nat point.block), ("context", point.context.toJson)]

end ProgramPoint

end ScriptHeap
