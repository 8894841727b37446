import ScriptHeap.Data.FinSet
import ScriptHeap.Error

/-!
# Directed graphs

The vertices of a graph have numbers and carry data. Successors are kept in increasing order, and
so a depth-first walk, and the reverse post order it gives, are determined by the graph.
-/

namespace ScriptHeap

/-- Data that a vertex can carry: it knows its number and how it looks in a drawing. -/
class Vertex (ν : Type) where
  index : ν → Nat
  drawing : ν → String

/-- An edge between two vertices. -/
structure Edge where
  head : Nat
  tail : Nat
deriving DecidableEq, Repr, Inhabited

namespace Edge

instance : Ord Edge := ⟨compareLex (compareOn Edge.head) (compareOn Edge.tail)⟩

instance : Std.TransOrd Edge :=
  inferInstanceAs (Std.TransCmp (compareLex (compareOn Edge.head) (compareOn Edge.tail)))

instance : Std.LawfulEqOrd Edge where
  eq_of_compare {a b} h := by
    have parts := compareLex_eq_eq.mp h
    have heads : a.head = b.head := Std.LawfulEqOrd.eq_of_compare parts.1
    have tails : a.tail = b.tail := Std.LawfulEqOrd.eq_of_compare parts.2
    cases a
    cases b
    simp_all

/-- The text of an edge. -/
def text (edge : Edge) : String :=
  "(" ++ toString edge.head ++ "->" ++ toString edge.tail ++ ")"

/-- The data of an edge. -/
def schema : Schema :=
  .record [("head", .word), ("tail", .word)]

/-- An edge as data. -/
def toDatum (edge : Edge) : Datum :=
  .record [("head", .word edge.head), ("tail", .word edge.tail)]

/-- The edge of data. -/
def ofDatum? : Datum → Option Edge
  | .record [(_, head), (_, tail)] => do return ⟨← head.word?, ← tail.word?⟩
  | _ => none

/-- The ends of an edge, under which it stands in a graph. -/
def ends (edge : Edge) : Datum :=
  .tuple [.word edge.head, .word edge.tail]

end Edge

/-- A directed graph. -/
structure Digraph (ν : Type) where
  vertices : FinMap Nat ν
  edges : FinSet Edge
  successors : FinMap Nat (FinSet Nat)

namespace Digraph

variable {ν : Type}

/-- The graph without vertices. -/
def empty : Digraph ν := ⟨∅, ∅, ∅⟩

instance : Inhabited (Digraph ν) := ⟨empty⟩

/-- Whether there is a vertex of that number. -/
def hasVertex (g : Digraph ν) (index : Nat) : Bool :=
  g.vertices.contains index

/-- Add a vertex, or put other data in the place of a vertex. -/
def insertVertex (g : Digraph ν) (index : Nat) (v : ν) : Digraph ν :=
  { g with
    vertices := g.vertices.insert index v
    successors := g.successors.insert index ((g.successors.get? index).getD ∅) }

/-- Add an edge between two vertices. -/
def insertEdge (g : Digraph ν) (edge : Edge) : Except Error (Digraph ν) :=
  if !g.hasVertex edge.head then .error (.vertexNotFound edge.head)
  else if !g.hasVertex edge.tail then .error (.vertexNotFound edge.tail)
  else
    .ok { g with
      edges := g.edges.insert edge
      successors := g.successors.insert edge.head
        (((g.successors.get? edge.head).getD ∅).insert edge.tail) }

/-- The data of a vertex. -/
def vertex (g : Digraph ν) (index : Nat) : Except Error ν :=
  match g.vertices.get? index with
  | some v => .ok v
  | none => .error (.vertexNotFound index)

/-- Change the data of a vertex. -/
def updateVertex (g : Digraph ν) (index : Nat) (f : ν → ν) : Except Error (Digraph ν) :=
  match g.vertices.get? index with
  | some v => .ok { g with vertices := g.vertices.insert index (f v) }
  | none => .error (.vertexNotFound index)

/-- The successors of a vertex, in order. -/
def successorsOf (g : Digraph ν) (index : Nat) : Except Error (List Nat) :=
  match g.successors.get? index with
  | some set => .ok set.toList
  | none => .error (.vertexNotFound index)

/-! ### Walking -/

/-- The vertices that follow a vertex. -/
def following (g : Digraph ν) (index : Nat) : FinSet Nat :=
  (g.successors.get? index).getD ∅

/-- What a walk has to do. -/
inductive Task where
  /-- Enter a vertex, unless this has been done. -/
  | enter (index : Nat)
  /-- Leave a vertex for good. -/
  | leave (index : Nat)
deriving DecidableEq, Repr

namespace Task

/-- The vertex of a task. -/
def index : Task → Nat
  | .enter index | .leave index => index

/-- How many tasks a task may come to, those of other vertices apart: a vertex that is entered has
    to be left. -/
def weight : Task → Nat
  | .enter _ => 2
  | .leave _ => 1

end Task

/-- A depth-first walk: the vertices it has entered, those it has left, last first, and what it has
    to do, next first. -/
structure Walk where
  entered : FinSet Nat
  order : List Nat
  tasks : List Task

/-- The walk that has to enter a root. -/
def Walk.start (root : Nat) : Walk := ⟨∅, [], [.enter root]⟩

/-- Do the next task, if there is one. A vertex is entered once; it is left after all that follow it
    have been seen to, in order. -/
def advance (g : Digraph ν) (walk : Walk) : Option Walk :=
  match walk.tasks with
  | [] => none
  | .leave v :: rest => some { walk with order := v :: walk.order, tasks := rest }
  | .enter v :: rest =>
    if walk.entered.contains v then some { walk with tasks := rest }
    else
      let entered := walk.entered.insert v
      let next := (g.following v).toList.filter fun w => !entered.contains w
      some { walk with entered, tasks := next.map .enter ++ .leave v :: rest }

/-- The weight of the tasks that come from entering vertices which have not been entered. -/
def dormant (entered : FinSet Nat) : List (Nat × FinSet Nat) → Nat
  | [] => 0
  | (v, next) :: rest => (if entered.contains v then 0 else 2 * next.size) + dormant entered rest

/-- The weight of the tasks of a walk. -/
def tasksWeight : List Task → Nat
  | [] => 0
  | task :: rest => task.weight + tasksWeight rest

/-- A bound on the tasks that a walk will do. -/
def workLeft (g : Digraph ν) (walk : Walk) : Nat :=
  dormant walk.entered g.successors.toList + tasksWeight walk.tasks

theorem dormant_insert_le (entered : FinSet Nat) (v : Nat) (entries : List (Nat × FinSet Nat)) :
    dormant (entered.insert v) entries ≤ dormant entered entries := by
  induction entries with
  | nil => exact Nat.le_refl _
  | cons entry rest ih =>
      have grows : entered.contains entry.1 = true → (entered.insert v).contains entry.1 = true :=
        fun member => FinSet.mem_insert.mpr (.inr member)
      simp only [dormant]
      cases inside : entered.contains entry.1 with
      | true =>
          rw [grows inside]
          exact Nat.add_le_add_left ih _
      | false =>
          refine Nat.add_le_add ?_ ih
          split
          · exact Nat.zero_le _
          · exact Nat.le_refl _

/-- Entering a vertex takes the weight of its tasks out of what is dormant. -/
theorem dormant_insert_of_mem {entered : FinSet Nat} {v : Nat} {next : FinSet Nat}
    (fresh : entered.contains v = false) {entries : List (Nat × FinSet Nat)}
    (member : (v, next) ∈ entries) :
    dormant (entered.insert v) entries + 2 * next.size ≤ dormant entered entries := by
  induction entries with
  | nil => cases member
  | cons entry rest ih =>
      rcases List.mem_cons.mp member with rfl | later
      · have inside : (entered.insert v).contains v = true := FinSet.mem_insert.mpr (.inl rfl)
        have others := dormant_insert_le entered v rest
        simp only [dormant, inside, fresh, if_true, Bool.false_eq_true, if_false]
        omega
      · have first := dormant_insert_le entered v [entry]
        have others := ih later
        simp only [dormant] at first ⊢
        omega

theorem dormant_insert_following (g : Digraph ν) {entered : FinSet Nat} {v : Nat}
    (fresh : entered.contains v = false) :
    dormant (entered.insert v) g.successors.toList + 2 * (g.following v).toList.length ≤
      dormant entered g.successors.toList := by
  unfold following
  cases found : g.successors.get? v with
  | none => exact dormant_insert_le entered v _
  | some next =>
      have size : next.toList.length = next.size := List.length_map _
      show _ + 2 * next.toList.length ≤ _
      rw [size]
      exact dormant_insert_of_mem fresh (Assoc.mem_of_find?_eq_some found)

theorem tasksWeight_enter_append (vertices : List Nat) (rest : List Task) :
    tasksWeight (vertices.map .enter ++ rest) = 2 * vertices.length + tasksWeight rest := by
  induction vertices with
  | nil => exact (Nat.zero_add _).symm
  | cons v others ih =>
      simp only [List.map_cons, List.cons_append, tasksWeight, Task.weight, ih, List.length_cons]
      omega

/-- Each task brings a walk nearer to its end. -/
theorem workLeft_advance {g : Digraph ν} {walk walk' : Walk} (done : g.advance walk = some walk') :
    g.workLeft walk' < g.workLeft walk := by
  obtain ⟨entered, order, tasks⟩ := walk
  rcases tasks with _ | ⟨v | v, rest⟩
  · cases done
  · cases seen : entered.contains v with
    | true =>
        simp only [advance, seen, if_true, Option.some.injEq] at done
        subst done
        simp [workLeft, tasksWeight, Task.weight]
    | false =>
        simp only [advance, seen, Bool.false_eq_true, if_false, Option.some.injEq] at done
        subst done
        have used := g.dormant_insert_following seen
        have fewer := List.length_filter_le (fun w => !(entered.insert v).contains w)
          (g.following v).toList
        simp only [workLeft, tasksWeight_enter_append, tasksWeight, Task.weight]
        omega
  · cases done
    simp [workLeft, tasksWeight, Task.weight]

/-- Do all tasks. -/
def finish (g : Digraph ν) (walk : Walk) : Walk :=
  match _done : g.advance walk with
  | none => walk
  | some walk' => g.finish walk'
termination_by g.workLeft walk
decreasing_by exact workLeft_advance _done

/-- The vertices that can be reached from a root, in reverse post order. -/
def reversePostOrder (g : Digraph ν) (root : Nat) : Except Error (List Nat) :=
  if g.hasVertex root then .ok (g.finish (.start root)).order
  else .error (.vertexNotFound root)

/-! ### Output -/

/-- A drawing label between quotes: quotes are marked and line ends become left-aligned breaks. -/
def drawingLabel (s : String) : String :=
  String.ofList (s.toList.flatMap fun c =>
    if c = '"' then ['\\', '"'] else if c = '\n' then ['\\', 'l'] else [c])

/-- The graph in the language of a drawing tool. -/
def drawing [Vertex ν] (g : Digraph ν) : String :=
  let vertices := g.vertices.values.map fun v =>
    toString (Vertex.index v) ++ " [shape=\"box\", label=\"" ++ drawingLabel (Vertex.drawing v)
      ++ "\"];"
  let edges := g.edges.toList.map fun edge =>
    toString edge.head ++ " -> " ++ toString edge.tail ++ ";"
  "digraph G \x7b\n" ++ "\n".intercalate vertices ++ "\n\n" ++ "\n".intercalate edges ++ "\n\x7d"

/-- The data of a graph, given that of its vertices. -/
def schema (vertex : Schema) : Schema :=
  .record [("vertices", .map .word vertex), ("edges", .map (.tuple [.word, .word]) Edge.schema),
    ("successors", .map .word (.list .word))]

/-- The graph as data. Its edges are a map, in which each stands under its two ends. -/
def toDatum (write : ν → Datum) (g : Digraph ν) : Datum :=
  .record
    [("vertices", .ofEntries .word write g.vertices.toList),
      ("edges", .map (g.edges.toList.map fun edge => (edge.ends, edge.toDatum))),
      ("successors", .ofEntries .word (fun next : FinSet Nat => .ofList .word next.toList)
        g.successors.toList)]

/-- The graph of data. -/
def ofDatum? (read : Datum → Option ν) : Datum → Option (Digraph ν)
  | .record [(_, vertices), (_, edges), (_, successors)] => do
    let vertices ← vertices.entries? Datum.word? read
    let edges ← edges.entries? some Edge.ofDatum?
    let successors ← successors.entries? Datum.word? (Datum.list? Datum.word?)
    return ⟨.ofList vertices, .ofList (edges.map Prod.snd),
      .ofList (successors.map fun entry => (entry.1, .ofList entry.2))⟩
  | _ => none

end Digraph

end ScriptHeap
