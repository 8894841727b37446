import Mathlib.Data.List.Nodup
import Mathlib.Logic.Relation
import ScriptHeap.Proofs.Program.Assembly

/-!
# Reverse post order

A depth-first walk does one task after the other, and the list of its tasks can hold the same vertex
many times. What makes the order in which vertices are left a reverse post order is an invariant of
all tasks (`Walk.Sound`): whatever has to be done before a vertex is left can be reached from it,
and whatever follows the vertex is entered by then.

Where the edges of a graph were added one by one, the order has every vertex that can be reached
from the root, once and the root first. An edge that goes backwards in it closes a cycle, and so
there is none if the vertices have no cycle (`Digraph.reversePostOrder_ordered`).
-/

namespace ScriptHeap.Digraph

open Relation

variable {ν : Type} {g g' : Digraph ν} {root u v w : Nat}

/-! ### Paths -/

/-- The second vertex is among those that follow the first. -/
def Follows (g : Digraph ν) (u v : Nat) : Prop := v ∈ g.following u

/-- The second vertex can be reached from the first. -/
def Reaches (g : Digraph ν) : Nat → Nat → Prop := ReflTransGen g.Follows

/-! ### Tasks -/

/-- The vertices that are left later, innermost first. -/
def opened : List Task → List Nat
  | [] => []
  | .enter _ :: rest => opened rest
  | .leave v :: rest => v :: opened rest

/-- When a vertex is left, whatever follows it is one of the given vertices or has had to be entered
    before. -/
def SeenTo (g : Digraph ν) (given : Nat → Prop) : List Task → Prop
  | [] => True
  | .enter v :: rest => SeenTo g (fun w => given w ∨ w = v) rest
  | .leave v :: rest => (∀ w, g.Follows v w → given w) ∧ SeenTo g given rest

theorem mem_opened {tasks : List Task} : v ∈ opened tasks ↔ .leave v ∈ tasks := by
  induction tasks with
  | nil => simp [opened]
  | cons task rest ih => cases task <;> simp [opened, ih]

theorem opened_enter_append (vertices : List Nat) (rest : List Task) :
    opened (vertices.map .enter ++ rest) = opened rest := by
  induction vertices with
  | nil => rfl
  | cons v _ ih => exact ih

theorem SeenTo.mono {tasks : List Task} {given given' : Nat → Prop}
    (seen : g.SeenTo given tasks) (weaker : ∀ w, given w → given' w) : g.SeenTo given' tasks := by
  induction tasks generalizing given given' with
  | nil => trivial
  | cons task rest ih =>
      cases task with
      | enter v => exact ih seen fun w => Or.imp_left (weaker w)
      | leave v => exact ⟨fun w next => weaker w (seen.1 w next), ih seen.2 weaker⟩

/-- Vertices that are entered first are among the given ones afterwards. -/
theorem seenTo_enter_append {given : Nat → Prop} {vertices : List Nat} {rest : List Task}
    (seen : g.SeenTo (fun w => given w ∨ w ∈ vertices) rest) :
    g.SeenTo given (vertices.map .enter ++ rest) := by
  induction vertices generalizing given with
  | nil => exact seen.mono fun w found => found.resolve_right List.not_mem_nil
  | cons v others ih =>
      refine ih (seen.mono fun w found => or_assoc.mpr ?_)
      rwa [List.mem_cons] at found

/-! ### Walks -/

/-- The root is at the bottom of all tasks: it has to be entered, it has to be left, or it has been
    left last. -/
inductive Walk.Rooted (root : Nat) : Walk → Prop where
  | start : Rooted root (.start root)
  | inside {walk : Walk} (bottom : walk.tasks.getLast? = some (.leave root)) : Rooted root walk
  | done {walk : Walk} (none : walk.tasks = []) (first : walk.order.head? = some root) :
      Rooted root walk

/-- What holds of a walk from a root at all times. -/
structure Walk.Sound (g : Digraph ν) (root : Nat) (walk : Walk) : Prop where
  rooted : walk.Rooted root
  pending : ∀ task ∈ walk.tasks, g.Reaches root task.index
  reached : ∀ v ∈ walk.order, g.Reaches root v
  entered : ∀ v, v ∈ walk.entered ↔ v ∈ opened walk.tasks ∨ v ∈ walk.order
  once : (opened walk.tasks ++ walk.order).Nodup
  /-- Whatever has to be done before a vertex is left can be reached from it. -/
  nested : walk.tasks.Pairwise fun task later => ∀ v, later = .leave v → g.Reaches v task.index
  seen : g.SeenTo (· ∈ walk.entered) walk.tasks
  closed : ∀ u ∈ walk.order, ∀ v, g.Follows u v → v ∈ walk.entered
  /-- An edge to a vertex that has not been left goes back to it. -/
  returns : ∀ u ∈ walk.order, ∀ v ∈ opened walk.tasks, g.Follows u v → g.Reaches v u
  /-- An edge to a vertex that was left later closes a cycle. -/
  cyclic : walk.order.Pairwise fun u v => g.Follows v u → g.Reaches u v

namespace Walk.Sound

variable {entered : FinSet Nat} {order : List Nat} {rest : List Task}

theorem start (g : Digraph ν) (root : Nat) : (Walk.start root).Sound g root where
  rooted := .start
  pending task member := by
    rw [List.mem_singleton.mp member]
    exact .refl
  reached _ listed := absurd listed List.not_mem_nil
  entered v := by simp [Walk.start, opened]
  once := .nil
  nested := List.pairwise_singleton _ _
  seen := trivial
  closed _ listed := absurd listed List.not_mem_nil
  returns _ listed := absurd listed List.not_mem_nil
  cyclic := .nil

/-- A vertex that has been entered is passed by. -/
theorem pass (sound : Sound g root ⟨entered, order, .enter v :: rest⟩) (again : v ∈ entered) :
    Sound g root ⟨entered, order, rest⟩ where
  rooted := by
    cases sound.rooted with
    | start => exact absurd again (FinSet.not_mem_empty _)
    | inside bottom =>
        cases rest with
        | nil => cases bottom
        | cons task others => exact .inside (by simpa using bottom)
    | done none => cases none
  pending task member := sound.pending task (List.mem_cons_of_mem _ member)
  reached := sound.reached
  entered := sound.entered
  once := sound.once
  nested := (List.pairwise_cons.mp sound.nested).2
  seen := SeenTo.mono sound.seen fun w => Or.rec id fun same => same ▸ again
  closed := sound.closed
  returns := sound.returns
  cyclic := sound.cyclic

/-- A vertex is entered. -/
theorem enter (sound : Sound g root ⟨entered, order, .enter v :: rest⟩) (fresh : ¬ v ∈ entered)
    {next : List Nat} (follow : ∀ w ∈ next, g.Follows v w)
    (all : ∀ w, g.Follows v w → w ∈ entered.insert v ∨ w ∈ next) :
    Sound g root ⟨entered.insert v, order, next.map .enter ++ .leave v :: rest⟩ := by
  obtain ⟨above, nestedRest⟩ := List.pairwise_cons.mp sound.nested
  have here : g.Reaches root v := sound.pending _ List.mem_cons_self
  have nowOpen : opened (next.map .enter ++ .leave v :: rest) = v :: opened rest :=
    opened_enter_append next _
  have outside : ¬ v ∈ opened rest ++ order := fun member =>
    fresh ((sound.entered v).mpr (List.mem_append.mp member))
  have old : ∀ w, w ∈ entered → w ∈ entered.insert v := fun w member =>
    FinSet.mem_insert.mpr (.inr member)
  refine ⟨?_, ?_, sound.reached, ?_, ?_, ?_, ?_, ?_, ?_, sound.cyclic⟩
  · cases sound.rooted with
    | start => exact .inside (by simp)
    | inside bottom =>
        cases rest with
        | nil => cases bottom
        | cons task others => exact .inside (by simpa [List.getLast?_append] using bottom)
    | done none => cases none
  · intro task member
    rcases List.mem_append.mp member with entering | others
    · obtain ⟨w, listed, rfl⟩ := List.mem_map.mp entering
      exact here.tail (follow w listed)
    · rcases List.mem_cons.mp others with rfl | later
      · exact here
      · exact sound.pending task (List.mem_cons_of_mem _ later)
  · intro w
    show _ ↔ w ∈ opened (next.map .enter ++ .leave v :: rest) ∨ w ∈ order
    rw [nowOpen, FinSet.mem_insert, List.mem_cons, or_assoc]
    exact or_congr_right (sound.entered w)
  · show (opened (next.map .enter ++ .leave v :: rest) ++ order).Nodup
    rw [nowOpen]
    exact List.nodup_cons.mpr ⟨outside, sound.once⟩
  · have below : ∀ later ∈ rest, ∀ x, later = .leave x → g.Reaches x v := above
    refine List.pairwise_append.mpr ⟨?_, List.pairwise_cons.mpr ⟨below, nestedRest⟩, ?_⟩
    · refine List.pairwise_map.mpr (List.pairwise_of_forall fun _ _ x same => ?_)
      cases same
    · intro task entering later member x same
      obtain ⟨w, listed, rfl⟩ := List.mem_map.mp entering
      rcases List.mem_cons.mp member with rfl | others
      · cases same
        exact .single (follow w listed)
      · exact (below later others x same).tail (follow w listed)
  · refine seenTo_enter_append ⟨all, SeenTo.mono sound.seen fun w found => .inl ?_⟩
    exact FinSet.mem_insert.mpr found.symm
  · exact fun u left w next => old w (sound.closed u left w next)
  · intro u left w isOpen edge
    rw [nowOpen] at isOpen
    rcases List.mem_cons.mp isOpen with rfl | others
    · exact absurd (sound.closed u left w edge) fresh
    · exact sound.returns u left w others edge

/-- A vertex is left. -/
theorem leave (sound : Sound g root ⟨entered, order, .leave v :: rest⟩) :
    Sound g root ⟨entered, v :: order, rest⟩ := by
  obtain ⟨above, nestedRest⟩ := List.pairwise_cons.mp sound.nested
  refine ⟨?_, ?_, ?_, ?_, ?_, nestedRest, sound.seen.2, ?_, ?_, ?_⟩
  · cases sound.rooted with
    | inside bottom =>
        cases rest with
        | nil =>
            cases bottom
            exact .done rfl rfl
        | cons task others => exact .inside (by simpa using bottom)
    | done none => cases none
  · exact fun task member => sound.pending task (List.mem_cons_of_mem _ member)
  · exact List.forall_mem_cons.mpr ⟨sound.pending _ List.mem_cons_self, sound.reached⟩
  · intro w
    have before : w ∈ entered ↔ w ∈ v :: opened rest ∨ w ∈ order := sound.entered w
    rw [before, List.mem_cons, List.mem_cons, or_assoc, or_left_comm]
  · exact List.nodup_middle.mpr sound.once
  · exact List.forall_mem_cons.mpr ⟨sound.seen.1, sound.closed⟩
  · -- The vertex was entered inside every vertex that is still open.
    refine List.forall_mem_cons.mpr ⟨fun w isOpen _ => ?_, fun u left w isOpen => ?_⟩
    · exact above _ (mem_opened.mp isOpen) w rfl
    · exact sound.returns u left w (List.mem_cons_of_mem _ isOpen)
  · refine List.pairwise_cons.mpr ⟨fun u left => ?_, sound.cyclic⟩
    exact sound.returns u left v List.mem_cons_self

/-- Doing a task keeps the invariant. -/
theorem advance {walk walk' : Walk} (sound : walk.Sound g root)
    (done : g.advance walk = some walk') : walk'.Sound g root := by
  obtain ⟨entered, order, tasks⟩ := walk
  rcases tasks with _ | ⟨v | v, rest⟩
  · cases done
  · cases seen : entered.contains v with
    | true =>
        simp only [Digraph.advance, seen, if_true, Option.some.injEq] at done
        subst done
        exact sound.pass seen
    | false =>
        simp only [Digraph.advance, seen, Bool.false_eq_true, if_false, Option.some.injEq] at done
        subst done
        have fresh : ¬ v ∈ entered := Bool.eq_false_iff.mp seen
        refine sound.enter fresh (fun w listed => ?_) fun w edge => ?_
        · exact FinSet.mem_toList.mp (List.mem_filter.mp listed).1
        · cases known : (entered.insert v).contains w with
          | true => exact .inl known
          | false =>
              exact .inr (List.mem_filter.mpr ⟨FinSet.mem_toList.mpr edge, by simp [known]⟩)
  · cases done
    exact sound.leave

end Walk.Sound

theorem tasks_eq_nil_of_advance {walk : Walk} (ended : g.advance walk = none) :
    walk.tasks = [] := by
  obtain ⟨entered, order, tasks⟩ := walk
  rcases tasks with _ | ⟨v | v, rest⟩
  · rfl
  · simp only [advance] at ended
    split at ended <;> cases ended
  · cases ended

/-- What holds at the start and is kept by every task holds when all tasks are done. -/
theorem finish_induction {P : Walk → Prop}
    (keeps : ∀ walk walk', P walk → g.advance walk = some walk' → P walk') {walk : Walk}
    (holds : P walk) : P (g.finish walk) ∧ (g.finish walk).tasks = [] := by
  induction walk using finish.induct g with
  | case1 walk ended =>
      rw [finish, ended]
      exact ⟨holds, tasks_eq_nil_of_advance ended⟩
  | case2 walk walk' done ih =>
      rw [finish, done]
      exact ih (keeps walk walk' holds done)

/-- The walk from a root is sound to its end, when nothing is left to do. -/
theorem finish_sound (g : Digraph ν) (root : Nat) :
    (g.finish (.start root)).Sound g root ∧ (g.finish (.start root)).tasks = [] :=
  finish_induction (fun _ _ sound done => sound.advance done) (.start g root)

/-! ### The order of a walk -/

theorem idxOf_lt_or_of_pairwise {R : Nat → Nat → Prop} {order : List Nat}
    (pairwise : order.Pairwise R) (listed : u ∈ order) (listedOther : v ∈ order) :
    order.idxOf u < order.idxOf v ∨ u = v ∨ R v u := by
  have inside := List.idxOf_lt_length_of_mem listed
  have insideOther := List.idxOf_lt_length_of_mem listedOther
  rcases Nat.lt_trichotomy (order.idxOf u) (order.idxOf v) with before | same | after
  · exact .inl before
  · exact .inr (.inl ((List.idxOf_inj listed).mp same))
  · have related := List.pairwise_iff_getElem.mp pairwise _ _ insideOther inside after
    rw [List.getElem_idxOf, List.getElem_idxOf] at related
    exact .inr (.inr related)

namespace Walk.Sound

variable {walk : Walk} (sound : walk.Sound g root)

include sound

/-- An edge leads forward, or back to a vertex from which its start can be reached. -/
theorem idxOf_lt_or_reaches (listed : u ∈ walk.order) (listedOther : v ∈ walk.order)
    (edge : g.Follows u v) : walk.order.idxOf u < walk.order.idxOf v ∨ g.Reaches v u := by
  rcases idxOf_lt_or_of_pairwise sound.cyclic listed listedOther with before | same | back
  · exact .inl before
  · exact .inr (same ▸ .refl)
  · exact .inr (back edge)

variable (ended : walk.tasks = [])

include ended

theorem head?_order : walk.order.head? = some root := by
  cases sound.rooted with
  | start => cases ended
  | inside bottom =>
      rw [ended] at bottom
      cases bottom
  | done _ first => exact first

theorem mem_order_iff : v ∈ walk.order ↔ g.Reaches root v := by
  have left : ∀ w, w ∈ walk.entered ↔ w ∈ walk.order := by
    intro w
    rw [sound.entered, ended]
    exact or_iff_right List.not_mem_nil
  refine ⟨sound.reached v, fun path => ?_⟩
  induction path with
  | refl => exact List.mem_of_head? (sound.head?_order ended)
  | tail _ edge ih => exact (left _).mp (sound.closed _ ih _ edge)

end Walk.Sound

/-! ### Graphs that are built up -/

/-- An edge leads from the first vertex to the second. -/
def Linked (g : Digraph ν) (u v : Nat) : Prop := (⟨u, v⟩ : Edge) ∈ g.edges

/-- A graph to which vertices and edges were added one by one. -/
inductive Built : Digraph ν → Prop where
  | empty : Built .empty
  | insertVertex {g : Digraph ν} (built : Built g) (index : Nat) (data : ν) :
      Built (g.insertVertex index data)
  | insertEdge {g g' : Digraph ν} (built : Built g) {edge : Edge}
      (added : g.insertEdge edge = .ok g') : Built g'

namespace Built

/-- The successors repeat the edges. -/
theorem follows_iff_linked (built : g.Built) : g.Follows u v ↔ g.Linked u v := by
  induction built with
  | empty => exact iff_of_false (FinSet.not_mem_empty v) (FinSet.not_mem_empty _)
  | @insertVertex g built index data ih =>
      have same : (g.insertVertex index data).following u = g.following u := by
        show ((g.successors.insert index (g.following index)).get? u).getD ∅ = _
        rw [FinMap.get?_insert]
        split
        · rename_i equal
          rw [equal]
          rfl
        · rfl
      show v ∈ (g.insertVertex index data).following u ↔ _
      rw [same]
      exact ih
  | @insertEdge g g' built edge added ih =>
      obtain ⟨_, _, rfl⟩ := eq_of_insertEdge added
      show v ∈ ((g.successors.insert edge.head ((g.following edge.head).insert edge.tail)).get?
        u).getD ∅ ↔ (⟨u, v⟩ : Edge) ∈ g.edges.insert edge
      rw [FinMap.get?_insert, FinSet.mem_insert]
      obtain ⟨head, tail⟩ := edge
      by_cases same : u = head
      · subst same
        rw [if_pos rfl, Option.getD_some, FinSet.mem_insert]
        exact or_congr (by simp) ih
      · rw [if_neg same]
        refine ih.trans (or_iff_right ?_).symm
        exact fun equal => same (Edge.mk.inj equal).1

theorem hasVertex_of_linked (built : g.Built) (edge : g.Linked u v) :
    g.hasVertex u = true ∧ g.hasVertex v = true := by
  induction built with
  | empty => exact absurd edge (FinSet.not_mem_empty _)
  | insertVertex built index data ih =>
      exact (ih edge).imp (hasVertex_insertVertex data) (hasVertex_insertVertex data)
  | insertEdge built added ih =>
      obtain ⟨head, tail, rfl⟩ := eq_of_insertEdge added
      rcases FinSet.mem_insert.mp edge with rfl | before
      · exact ⟨head, tail⟩
      · exact ih before

theorem reaches_eq (built : g.Built) : g.Reaches = ReflTransGen g.Linked := by
  have same : g.Follows = g.Linked :=
    funext fun _ => funext fun _ => propext built.follows_iff_linked
  rw [Reaches, same]

end Built

/-- The vertices are those that can be reached from the root, each once, and the root is the first.
    An edge leads forward or closes a cycle, and so all edges do where there is no cycle. -/
structure IsReversePostOrder (g : Digraph ν) (root : Nat) (order : List Nat) : Prop where
  first : order.head? = some root
  once : order.Nodup
  mem_iff : ∀ v, v ∈ order ↔ g.hasVertex v = true ∧ ReflTransGen g.Linked root v
  forward : ∀ u ∈ order, ∀ v ∈ order, g.Linked u v →
    order.idxOf u < order.idxOf v ∨ ReflTransGen g.Linked v u
  topological : (∀ v ∈ order, ¬ TransGen g.Linked v v) → ∀ u ∈ order, ∀ v ∈ order, g.Linked u v →
    order.idxOf u < order.idxOf v

/-- A sound walk that has come to its end leaves the vertices in reverse post order. -/
theorem Built.isReversePostOrder (built : g.Built) (held : g.hasVertex root = true) {walk : Walk}
    (sound : walk.Sound g root) (ended : walk.tasks = []) :
    g.IsReversePostOrder root walk.order := by
  have reaches := built.reaches_eq
  have forward : ∀ u ∈ walk.order, ∀ v ∈ walk.order, g.Linked u v →
      walk.order.idxOf u < walk.order.idxOf v ∨ ReflTransGen g.Linked v u := by
    intro u listed v listedOther edge
    rw [← reaches]
    exact sound.idxOf_lt_or_reaches listed listedOther (built.follows_iff_linked.mpr edge)
  refine ⟨sound.head?_order ended, (List.nodup_append.mp sound.once).2.1, fun v => ?_, forward, ?_⟩
  · rw [sound.mem_order_iff ended, reaches]
    refine ⟨fun path => ⟨?_, path⟩, And.right⟩
    rcases ReflTransGen.cases_tail path with same | ⟨u, _, edge⟩
    · rw [same]
      exact held
    · exact (built.hasVertex_of_linked edge).2
  · intro acyclic u listed v listedOther edge
    refine (forward u listed v listedOther edge).resolve_right fun back => ?_
    exact acyclic v listedOther (TransGen.tail' back edge)

/-- In a graph to which vertices and edges were added one by one, the walk from a vertex ends with
    its vertices in reverse post order. From a missing root there is no walk. -/
theorem reversePostOrder_ordered (built : g.Built) (root : Nat) :
    (g.hasVertex root = true → ∃ order, g.reversePostOrder root = .ok order ∧
      g.IsReversePostOrder root order) ∧
    (g.hasVertex root = false → g.reversePostOrder root = .error (.vertexNotFound root)) := by
  unfold reversePostOrder
  refine ⟨fun held => ⟨_, if_pos held, ?_⟩, fun missing => if_neg (Bool.eq_false_iff.mp missing)⟩
  obtain ⟨sound, ended⟩ := g.finish_sound root
  exact built.isReversePostOrder held sound ended

/-- A branching into two vertices that meet again, where the second and the meeting point are on a
    cycle. -/
def crossing : Except Error (Digraph Unit) :=
  [(⟨1, 2⟩ : Edge), ⟨2, 3⟩, ⟨2, 4⟩, ⟨3, 5⟩, ⟨4, 5⟩, ⟨5, 4⟩].foldlM insertEdge
    ([1, 2, 3, 4, 5].foldl (fun g index => g.insertVertex index ()) .empty)

theorem built_foldl_insertVertex {g : Digraph Unit} (built : g.Built) (indices : List Nat) :
    (indices.foldl (fun g index => g.insertVertex index ()) g).Built := by
  induction indices generalizing g with
  | nil => exact built
  | cons index rest ih => exact ih (built.insertVertex index ())

theorem built_of_foldlM_insertEdge (built : g.Built) {edges : List Edge}
    (added : edges.foldlM insertEdge g = .ok g') : g'.Built := by
  induction edges generalizing g with
  | nil =>
      cases added
      exact built
  | cons edge rest ih =>
      rw [List.foldlM_cons] at added
      cases first : g.insertEdge edge with
      | error e =>
          rw [first] at added
          cases added
      | ok next =>
          rw [first] at added
          exact ih (built.insertEdge first) added

/-- The first of the two vertices comes before the meeting point, as it cannot be reached from
    there. -/
theorem crossing_ordered : ∃ g order, crossing = .ok g ∧ g.reversePostOrder 1 = .ok order ∧
    order.head? = some 1 ∧ order.idxOf 3 < order.idxOf 5 := by
  obtain ⟨g, made, held, path, edge, closed⟩ : ∃ g, crossing = .ok g ∧ g.hasVertex 1 = true ∧
      (g.Linked 1 2 ∧ g.Linked 2 3) ∧ g.Linked 3 5 ∧
      ∀ edge ∈ g.edges.toList, edge.head ∈ [4, 5] → edge.tail ∈ [4, 5] :=
    ⟨_, rfl, rfl, ⟨rfl, rfl⟩, rfl, by decide⟩
  have built : g.Built := built_of_foldlM_insertEdge (built_foldl_insertVertex .empty _) made
  obtain ⟨order, done, ordered⟩ := (reversePostOrder_ordered built 1).1 held
  have inCycle : ∀ v, ReflTransGen g.Linked 5 v → v ∈ [4, 5] := by
    intro v back
    induction back with
    | refl => decide
    | tail _ last ih => exact closed _ (FinSet.mem_toList.mpr last) ih
  have third : ReflTransGen g.Linked 1 3 := .tail (.single path.1) path.2
  have listed : ∀ v, g.Linked 3 v → v ∈ order := fun v last =>
    (ordered.mem_iff v).mpr ⟨(built.hasVertex_of_linked last).2, third.tail last⟩
  have listedThird : 3 ∈ order :=
    (ordered.mem_iff 3).mpr ⟨(built.hasVertex_of_linked path.2).2, third⟩
  have forward := ordered.forward 3 listedThird 5 (listed 5 edge) edge
  exact ⟨g, order, made, done, ordered.first,
    forward.resolve_right fun back => absurd (inCycle 3 back) (by decide)⟩

end ScriptHeap.Digraph
