import ScriptHeap.State.Join

/-!
# Entry states

A fixed point is reached by keeping, for every program point, the join of the states that have
flowed into it, and a queue of the points whose entry state has grown since they were last worked
on. Points are worked on in the order of their priorities.
-/

namespace ScriptHeap

/-- A program point that waits to be worked on. -/
structure Job where
  priority : Nat
  point : ProgramPoint
deriving DecidableEq, Repr, Inhabited

namespace Job

instance : Ord Job := ⟨compareLex (compareOn Job.priority) (compareOn Job.point)⟩

instance : Std.TransOrd Job :=
  inferInstanceAs (Std.TransCmp (compareLex (compareOn Job.priority) (compareOn Job.point)))

instance : Std.LawfulEqOrd Job where
  eq_of_compare {a b} h := by
    have parts := compareLex_eq_eq.mp h
    have priorities : a.priority = b.priority := Std.LawfulEqOrd.eq_of_compare parts.1
    have points : a.point = b.point := Std.LawfulEqOrd.eq_of_compare parts.2
    cases a
    cases b
    simp_all

end Job

/-- The entry states of the points that were reached, and the points that wait. -/
structure Entries where
  states : FinMap ProgramPoint State
  queue : FinSet Job

namespace Entries

/-- Nothing is reached. -/
def empty : Entries := ⟨∅, ∅⟩

instance : Inhabited Entries := ⟨empty⟩

/-- The priority of a block: its place in the order of blocks. Blocks without a place come last. -/
def priority (order : List Nat) (block : Nat) : Nat :=
  order.idxOf block

/-- Let a point wait. -/
def enqueue (entries : Entries) (order : List Nat) (point : ProgramPoint) : Entries :=
  { entries with queue := entries.queue.insert ⟨priority order point.block, point⟩ }

/-- Let a state flow into a point, which waits if its entry state grows by it. -/
def flow (entries : Entries) (order : List Nat) (s : State) (point : ProgramPoint) : Entries :=
  match entries.states.get? point with
  | some entry =>
    let (changed, joined) := entry.join s
    let entries := { entries with states := entries.states.insert point joined }
    if changed then entries.enqueue order point else entries
  | none =>
    { entries with states := entries.states.insert point s.freezeHeap }.enqueue order point

/-- The first point that waits, and the entries without it in the queue. -/
def next? (entries : Entries) : Option (ProgramPoint × Entries) :=
  match entries.queue.toList with
  | [] => none
  | job :: _ => some (job.point, { entries with queue := entries.queue.erase job })

end Entries

end ScriptHeap
