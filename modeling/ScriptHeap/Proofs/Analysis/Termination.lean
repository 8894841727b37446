import Mathlib.Order.OrderIsoNat
import ScriptHeap.Proofs.Analysis.PostFixpoint
import ScriptHeap.Proofs.Analysis.Outline
import ScriptHeap.Proofs.Transfer.Ascent
import ScriptHeap.Proofs.Transfer.Tracking

/-!
# Termination by the ordinary rules

With the ordinary rules alone, the rounds of an analysis come to an end. If they did not, the
contents at each point would grow for ever (`Outline.Endless`). The blocks list finitely many keys
beside those of the contents before them, so all contents list some finitely many keys
(`Endless.exists_lists`) and in the end stay as they are (`Endless.eventually_same`). From then on
every round takes a point from the queue and adds none (`Endless.queue_shrinks`).

So for each program there is a number of rounds that is enough in every world and under all options.
-/

namespace ScriptHeap

open Filter Fallible

/-! ### Points and start contents -/

namespace FlowGraph

variable {program : FlowGraph}

/-- The points that states can flow into. -/
def points (program : FlowGraph) : Set ProgramPoint :=
  Set.image (fun block => ⟨block, .main⟩)
    {block | block ∈ program.functions.map Function.entry ++
      program.graph.successors.values.flatMap FinSet.toList}

theorem finite_points (program : FlowGraph) : program.points.Finite :=
  (List.finite_toSet _).image _

theorem entry_mem_points {f : Function} (member : f ∈ program.functions) :
    ⟨f.entry, .main⟩ ∈ program.points :=
  Set.mem_image_of_mem _ (List.mem_append_left _ (List.mem_map_of_mem member))

theorem successor_mem_points {block successor : Nat} {successors : List Nat}
    (known : program.successors block = .ok successors) (member : successor ∈ successors) :
    ⟨successor, .main⟩ ∈ program.points := by
  refine Set.mem_image_of_mem _ (List.mem_append_right _ ?_)
  unfold FlowGraph.successors at known
  cases found : program.graph.successors.get? block with
  | none =>
      simp only [found] at known
      cases known
  | some set =>
      simp only [found] at known
      cases known
      exact List.mem_flatMap.mpr ⟨set, FinMap.mem_values_iff.mpr ⟨block, found⟩, member⟩

theorem context_of_mem_points {point : ProgramPoint} (member : point ∈ program.points) :
    point.context = .main := by
  obtain ⟨_, _, rfl⟩ := member
  rfl

end FlowGraph

namespace Contents

variable {program : FlowGraph}

theorem placed_newObject {s : State} (placed : Placed program s.shapes) {label : Label}
    (member : label ∈ program.labels) {shape : Shape} (scope : shape.scope = .known .empty) :
    Placed program (s.newObject label (.ofShape shape)).shapes := by
  intro holder other found
  rw [State.shapes_newObject] at found
  dsimp only at found
  by_cases same : holder = label
  · rw [if_pos same] at found
    refine ⟨same ▸ member, ?_⟩
    cases old : s.shapes label with
    | none =>
        rw [old] at found
        cases found
        exact scope
    | some existing =>
        rw [old] at found
        cases found
        show existing.scope.join shape.scope = _
        rw [(placed label existing old).2, scope]
        rfl
  · rw [if_neg same] at found
    exact placed holder other found

theorem within_initial (function : Nat) : (initial function).Within program where
  each := by
    rw [← State.contents_initial .initial function .main false]
    exact State.initial_each (Value.closed_within FlowGraph.global_mem_labels) _ _ _ _
  registers := nofun
  placed := by
    intro label shape (found : (if label = .global then _ else _) = _)
    split at found
    · cases found
      rename_i same
      exact ⟨same ▸ FlowGraph.global_mem_labels, rfl⟩
    · cases found

theorem scope_foldl_set {α : Type} {key : α → Key} {value : α → Value} (items : List α)
    (shape : Shape) :
    (items.foldl (fun shape item => shape.set (key item) (value item)) shape).scope =
      shape.scope := by
  induction items generalizing shape with
  | nil => rfl
  | cons item rest ih => exact ih _

theorem within_entered {f : Function} (member : f ∈ program.functions) :
    (entered f).Within program where
  each := State.entered_each (Value.closed_within FlowGraph.global_mem_labels) _ f _
  registers := by
    intro r v found
    have empty : (State.entered .initial f false).registers.get? r = some v := found
    rw [State.registers_entered] at empty
    cases empty
  placed := by
    have start : Placed program (State.initial .initial f.index .main false).1.contents.shapes := by
      rw [State.contents_initial]
      exact (within_initial f.index).placed
    show Placed program (State.entered _ _ _).shapes
    unfold State.entered State.enterFunction
    split
    · exact start
    · refine placed_newObject (placed_newObject start (FlowGraph.activation_mem_labels member) ?_)
        (FlowGraph.arguments_mem_labels member) ?_
      · exact scope_foldl_set _ _
      · exact scope_foldl_set _ _

end Contents

/-! ### Flows and rounds -/

namespace Outline

variable {program : FlowGraph} {order : List Nat} {s s' : Outline} {d : Contents}
  {P : Set ProgramPoint} {Q : Contents → Prop} {point : ProgramPoint}

/-- The points that are reached are among some points, and their contents have a property. -/
def Each (P : Set ProgramPoint) (Q : Contents → Prop) (s : Outline) : Prop :=
  ∀ point c, s.contents point = some c → point ∈ P ∧ Q c

/-- The contents at a point have a property. -/
def Holds (s : Outline) (point : ProgramPoint) (Q : Contents → Prop) : Prop :=
  ∃ c, s.contents point = some c ∧ Q c

theorem contents_flow (s : Outline) (order : List Nat) (d : Contents) (point : ProgramPoint) :
    (s.flow order d point).contents point =
      some (((s.contents point).map fun c => c.join d).getD d) :=
  if_pos rfl

theorem contents_flow_of_ne {other : ProgramPoint} (different : other ≠ point) :
    (s.flow order d point).contents other = s.contents other :=
  if_neg different

theorem Each.flow (join : ∀ c, Q c → Q (c.join d)) (each : s.Each P Q) (own : Q d)
    (member : point ∈ P) : (s.flow order d point).Each P Q := by
  intro other c found
  by_cases same : other = point
  · subst same
    rw [contents_flow] at found
    cases found
    refine ⟨member, ?_⟩
    cases old : s.contents other with
    | none => exact own
    | some c => exact join c (each other c old).2
  · rw [contents_flow_of_ne same] at found
    exact each other c found

theorem Each.flowAll (join : ∀ c, Q c → Q (c.join d)) (own : Q d) {points : List ProgramPoint}
    (members : ∀ point ∈ points, point ∈ P) (each : s.Each P Q) :
    (flowAll order d points s).Each P Q := by
  induction points generalizing s with
  | nil => exact each
  | cons point rest ih =>
      exact ih (fun other member => members other (List.mem_cons_of_mem _ member))
        (each.flow join own (members point List.mem_cons_self))

theorem Holds.flow (join : ∀ c, Q c → Q (c.join d)) (holds : s.Holds point Q)
    (other : ProgramPoint) : (s.flow order d other).Holds point Q := by
  obtain ⟨c, found, own⟩ := holds
  by_cases same : point = other
  · subst same
    refine ⟨c.join d, ?_, join c own⟩
    rw [contents_flow, found]
    rfl
  · exact ⟨c, (contents_flow_of_ne same).trans found, own⟩

theorem Holds.flowAll (join : ∀ c, Q c → Q (c.join d)) (holds : s.Holds point Q)
    (points : List ProgramPoint) : (flowAll order d points s).Holds point Q := by
  induction points generalizing s with
  | nil => exact holds
  | cons other rest ih => exact ih (holds.flow join other)

/-- The points that are reached are those of the program, and their contents use what it can
    name. -/
abbrev Within (program : FlowGraph) : Outline → Prop :=
  Each program.points (Contents.Within program)

/-- What covers some contents goes on covering them. -/
theorem covers_of_join (own : d.Within program) {e : Contents} (within : e.Within program) :
    ∀ c : Contents, c.Within program ∧ c.Covers e →
      (c.join d).Within program ∧ (c.join d).Covers e :=
  fun _ ⟨formed, covers⟩ => ⟨formed.join own, covers.join formed within own⟩

/-- Contents that have flowed into points are covered there. -/
theorem holds_flowAll (order : List Nat) (within : s.Within program) (own : d.Within program)
    {points : List ProgramPoint} (members : ∀ point ∈ points, point ∈ program.points) :
    ∀ point ∈ points,
      (flowAll order d points s).Holds point fun c => c.Within program ∧ c.Covers d := by
  induction points generalizing s with
  | nil => exact nofun
  | cons first rest ih =>
      have next : (s.flow order d first).Within program :=
        within.flow (fun _ formed => formed.join own) own (members first List.mem_cons_self)
      intro point member
      rcases List.mem_cons.mp member with rfl | member
      · refine Holds.flowAll (covers_of_join own own) ⟨_, contents_flow .., ?_⟩ rest
        cases old : s.contents point with
        | none => exact ⟨own, .refl d⟩
        | some c =>
            have formed := (within point c old).2
            exact ⟨formed.join own, formed.join_covers own⟩
      · have later := fun other listed => members other (List.mem_cons_of_mem _ listed)
        exact ih next later point member

/-- Contents that are covered everywhere let no point wait. -/
theorem queue_flowAll (own : d.Within program) {points : List ProgramPoint}
    (holds : ∀ point ∈ points, s.Holds point fun c => c.Within program ∧ c.Covers d) :
    (flowAll order d points s).queue = s.queue := by
  induction points generalizing s with
  | nil => rfl
  | cons first rest ih =>
      obtain ⟨c, found, -, covers⟩ := holds first List.mem_cons_self
      refine (ih fun point member => ?_).trans (queue_flow_of_covers ⟨c, found, covers⟩)
      exact (holds point (List.mem_cons_of_mem _ member)).flow (covers_of_join own own) first

/-- A round makes contents within the bounds of the program, which flow into its points. -/
theorem Within.round_cases (within : s.Within program) (done : s.round program order = some s') :
    ∃ job c block d points, job ∈ s.queue ∧ s.contents job.point = some c ∧
      program.block job.point.block = .ok block ∧ c.run program block.nodes = .ok d ∧
      d.Within program ∧ (∀ point ∈ points, point ∈ program.points) ∧
      s' = flowAll order d points { s with queue := s.queue.erase job } := by
  obtain ⟨job, jobs, c, block, d, successors, listed, reached, found, ran, known, rfl⟩ :=
    Outline.round_cases done
  obtain ⟨member, formed⟩ := within job.point c reached
  refine ⟨job, c, block, d, _, ?_, reached, found, ran, ?_, ?_, rfl⟩
  · rw [← FinSet.mem_toList, listed]
    exact List.mem_cons_self
  · exact formed.run (FlowGraph.mem_nodes found) ran
  · intro point inside
    obtain ⟨successor, listed, rfl⟩ := List.mem_map.mp inside
    rw [FlowGraph.context_of_mem_points member]
    exact FlowGraph.successor_mem_points known listed

theorem within_start {main : Function} (found : program.main = .ok main) :
    (start program order main).Within program := by
  have flows : ∀ {s : Outline} {f : Function} {c : Contents}, s.Within program →
      f ∈ program.functions → c.Within program →
      (s.flow order c ⟨f.entry, .main⟩).Within program := fun within member own =>
    within.flow (fun _ formed => formed.join own) own (FlowGraph.entry_mem_points member)
  have functions : ∀ {functions : List Function} {s : Outline}, s.Within program →
      (∀ f ∈ functions, f ∈ program.functions) →
      (functions.foldl (fun s f => s.flow order (.entered f) ⟨f.entry, .main⟩) s).Within
        program := by
    intro functions s within members
    induction functions generalizing s with
    | nil => exact within
    | cons f rest ih =>
        have member := members f List.mem_cons_self
        exact ih (flows within member (Contents.within_entered member))
          fun other listed => members other (List.mem_cons_of_mem _ listed)
  have empty : empty.Within program := nofun
  exact functions (flows empty (FlowGraph.main_mem_functions found) (Contents.within_initial _))
    fun f listed => List.mem_of_mem_filter listed

theorem orbit_succ (program : FlowGraph) (order : List Nat) (n : Nat) (s : Outline) :
    s.orbit program order (n + 1) =
      (s.orbit program order n).bind fun s => s.round program order := by
  induction n generalizing s with
  | zero => exact Option.bind_fun_some _
  | succ n ih =>
      show (s.round program order).bind _ = Option.bind (Option.bind _ _) _
      rw [Option.bind_assoc]
      exact congrArg _ (funext ih)

/-! ### Endless rounds -/

/-- Rounds that go on for ever. -/
structure Endless (program : FlowGraph) (order : List Nat) (f : Nat → Outline) : Prop where
  start : (f 0).Within program
  round : ∀ n, (f n).round program order = some (f (n + 1))

namespace Endless

variable {f : Nat → Outline} (endless : Endless program order f)

include endless

theorem within (n : Nat) : (f n).Within program := by
  induction n with
  | zero => exact endless.start
  | succ n ih =>
      obtain ⟨job, c, block, d, points, -, -, -, -, own, members, same⟩ :=
        ih.round_cases (endless.round n)
      rw [same]
      exact Each.flowAll (fun _ formed => formed.join own) own members ih

theorem holds_later (join : ∀ c d, Q c → d.Within program → Q (c.join d)) {n m : Nat}
    (later : n ≤ m) (holds : (f n).Holds point Q) : (f m).Holds point Q := by
  induction m, later using Nat.le_induction with
  | base => exact holds
  | succ m _ ih =>
      obtain ⟨job, c, block, d, points, -, -, -, -, own, -, same⟩ :=
        (endless.within m).round_cases (endless.round m)
      rw [same]
      have rest : Holds { f m with queue := (f m).queue.erase job } point Q := ih
      exact rest.flowAll (fun c held => join c d held own) points

/-- The contents at a point grow. -/
theorem covers {n m : Nat} (later : n ≤ m) {c c' : Contents} (found : (f n).contents point = some c)
    (found' : (f m).contents point = some c') : c'.Covers c := by
  have within := (endless.within n point c found).2
  obtain ⟨e, held, -, covers⟩ := endless.holds_later
    (fun e _ held own => covers_of_join own within e held) later ⟨c, found, within, .refl c⟩
  rw [found'] at held
  cases held
  exact covers

theorem chain (point : ProgramPoint) :
    Contents.Chain {c | ∃ n, (f n).contents point = some c} := by
  rintro c ⟨n, found⟩ d ⟨m, found'⟩
  rcases Nat.le_total n m with later | later
  · exact .inr (endless.covers later found found')
  · exact .inl (endless.covers later found' found)

/-- The block of a point lists finitely many keys beside those of the contents before it. -/
theorem exists_written (point : ProgramPoint) :
    ∃ K : Set Key, K.Finite ∧ ∀ n c block d, (f n).contents point = some c →
      program.block point.block = .ok block → c.run program block.nodes = .ok d →
      ∀ K' : Set Key, K ⊆ K' → c.Lists K' → d.Lists K' := by
  cases found : program.block point.block with
  | error e => exact ⟨∅, Set.finite_empty, nofun⟩
  | ok block =>
      obtain ⟨K, S, finite, -, traced⟩ := Contents.exists_tracked (endless.chain point)
        (fun c ⟨n, reached⟩ => (endless.within n point c reached).2) (FlowGraph.mem_nodes found)
      refine ⟨K, finite, ?_⟩
      rintro n c _ d reached ⟨⟩ ran K' subset lists label shape held key listed
      have tracked := (traced.tracked ⟨⟨n, reached⟩, ran⟩).shapes label shape held
      rcases tracked.listed key listed with written | ⟨old, before, listed⟩
      · exact subset written
      · exact lists label old before key listed

/-- All contents list finitely many keys. -/
theorem exists_lists :
    ∃ K : Set Key, K.Finite ∧ ∀ n, (f n).Each program.points (Contents.Lists K) := by
  have first : ∀ point, ∃ K : Set Key, K.Finite ∧
      ∀ c, (f 0).contents point = some c → c.Lists K := by
    intro point
    cases found : (f 0).contents point with
    | none => exact ⟨∅, Set.finite_empty, nofun⟩
    | some c =>
        obtain ⟨K, finite, lists⟩ := (endless.start point c found).2.exists_lists
        exact ⟨K, finite, by rintro _ ⟨⟩; exact lists⟩
  choose A finiteA listsA using first
  choose B finiteB written using endless.exists_written
  have subset : ∀ point ∈ program.points, A point ∪ B point ⊆
      ⋃ point ∈ program.points, A point ∪ B point := fun _ member =>
    Set.subset_biUnion_of_mem (u := fun point => A point ∪ B point) member
  refine ⟨⋃ point ∈ program.points, A point ∪ B point,
    program.finite_points.biUnion fun point _ => (finiteA point).union (finiteB point), fun n => ?_⟩
  induction n with
  | zero =>
      intro point c found
      have member := (endless.start point c found).1
      have inside := Set.subset_union_left.trans (subset point member)
      exact ⟨member, (listsA point c found).mono inside⟩
  | succ n ih =>
      obtain ⟨job, c, block, d, points, -, reached, found, ran, -, members, same⟩ :=
        (endless.within n).round_cases (endless.round n)
      obtain ⟨member, lists⟩ := ih job.point c reached
      have own := written job.point n c block d reached found ran _
        (Set.subset_union_right.trans (subset _ member)) lists
      rw [same]
      exact Each.flowAll (fun _ listed => listed.join own) own members ih

/-- The contents of a point do not change for ever. -/
theorem eventually_same_at (point : ProgramPoint) :
    ∀ᶠ n in atTop, (f (n + 1)).contents point = (f n).contents point := by
  obtain ⟨K, finite, lists⟩ := endless.exists_lists
  by_cases reached : ∃ n c, (f n).contents point = some c
  · obtain ⟨first, c, found⟩ := reached
    have later : ∀ n, ∃ d, (f (first + n)).contents point = some d ∧ d.function = c.function :=
      fun n => endless.holds_later (fun _ _ same _ => same) (Nat.le_add_right first n)
        ⟨c, found, rfl⟩
    choose d held function using later
    have stable := Contents.eventually_same (c := d)
      (fun n => endless.covers (Nat.le_succ (first + n)) (held n) (held (n + 1)))
      (fun n => (function (n + 1)).trans (function n).symm)
      (fun n => (endless.within _ point _ (held n)).2) (fun n => (lists _ point _ (held n)).2)
      finite
    obtain ⟨last, stable⟩ := eventually_atTop.mp stable
    refine eventually_atTop.mpr ⟨first + last, fun n after => ?_⟩
    obtain ⟨k, rfl⟩ := Nat.exists_eq_add_of_le ((Nat.le_add_right first last).trans after)
    rw [Nat.add_assoc, held, held, stable k (Nat.add_le_add_iff_left.mp after)]
  · have missing : ∀ n, (f n).contents point = none := fun n =>
      Option.eq_none_iff_forall_ne_some.mpr fun c found => reached ⟨n, c, found⟩
    exact .of_forall fun n => (missing _).trans (missing _).symm

/-- The contents do not change for ever. -/
theorem eventually_same : ∀ᶠ n in atTop, (f (n + 1)).contents = (f n).contents := by
  have points : ∀ᶠ n in atTop, ∀ point ∈ program.points,
      (f (n + 1)).contents point = (f n).contents point :=
    (eventually_all_finite program.finite_points).mpr fun point _ =>
      endless.eventually_same_at point
  refine points.mono fun n same => funext fun point => ?_
  by_cases member : point ∈ program.points
  · exact same point member
  · have missing : ∀ n, (f n).contents point = none := fun n =>
      Option.eq_none_iff_forall_ne_some.mpr fun c found =>
        member (endless.within n point c found).1
    rw [missing, missing]

/-- A round that leaves all contents as they are takes a point from the queue. -/
theorem queue_shrinks {n : Nat} (same : (f (n + 1)).contents = (f n).contents) :
    (f (n + 1)).queue.size < (f n).queue.size := by
  obtain ⟨job, c, block, d, points, waits, -, -, -, own, members, next⟩ :=
    (endless.within n).round_cases (endless.round n)
  have rest : Within program { f n with queue := (f n).queue.erase job } := endless.within n
  have queue : (f (n + 1)).queue = (f n).queue.erase job := by
    rw [next]
    refine queue_flowAll own fun point member => ?_
    have covered := holds_flowAll order rest own members point member
    rw [← next] at covered
    obtain ⟨e, found, held⟩ := covered
    exact ⟨e, same ▸ found, held⟩
  rw [queue]
  refine (FinSet.eq_or_size_lt fun other member => (FinSet.mem_erase.mp member).2).resolve_left ?_
  intro unchanged
  rw [← unchanged] at waits
  exact (FinSet.mem_erase.mp waits).1 rfl

/-- The rounds do not go on for ever. -/
theorem absurd : False := by
  obtain ⟨last, stable⟩ := eventually_atTop.mp endless.eventually_same
  refine not_strictAnti_of_wellFoundedLT (fun n => (f (last + n)).queue.size) ?_
  exact strictAnti_nat_of_succ_lt fun n =>
    endless.queue_shrinks (stable (last + n) (Nat.le_add_right last n))

end Endless

/-- The rounds come to an end. -/
theorem Within.exists_orbit_eq_none (within : s.Within program) (order : List Nat) :
    ∃ n, s.orbit program order n = none := by
  by_contra endless
  have more : ∀ n, ∃ s', s.orbit program order n = some s' := fun n =>
    Option.ne_none_iff_exists'.mp fun stops => endless ⟨n, stops⟩
  choose f reached using more
  have start : f 0 = s := (Option.some.inj (reached 0)).symm
  have rounds : ∀ n, (f n).round program order = some (f (n + 1)) := by
    intro n
    have next := reached (n + 1)
    rwa [orbit_succ, reached n] at next
  exact Endless.absurd ⟨start ▸ within, rounds⟩

theorem orbit_eq_none_of_le {n m : Nat} (stops : s.orbit program order n = none) (later : n ≤ m) :
    s.orbit program order m = none := by
  induction m, later using Nat.le_induction with
  | base => exact stops
  | succ m _ ih =>
      rw [orbit_succ, ih]
      rfl

end Outline

/-! ### The bound -/

theorem FlowGraph.exists_rounds (program : FlowGraph) :
    ∃ N, ∀ main order, program.main = .ok main →
      program.graph.reversePostOrder main.entry = .ok order →
      (Outline.start program order main).orbit program order N = none := by
  cases found : program.main with
  | error e => exact ⟨0, nofun⟩
  | ok main =>
      cases ordered : program.graph.reversePostOrder main.entry with
      | error e =>
          refine ⟨0, ?_⟩
          rintro _ order ⟨⟩ ordered'
          rw [ordered] at ordered'
          cases ordered'
      | ok order =>
          obtain ⟨N, stops⟩ := (Outline.within_start found).exists_orbit_eq_none order
          refine ⟨N, ?_⟩
          rintro _ _ ⟨⟩ ordered'
          rw [ordered] at ordered'
          cases ordered'
          exact stops

namespace Analysis

/-- For each program, some number of rounds is enough for the ordinary rules. An analysis that is
    allowed as many gives a result, unless something that the program names is missing or the
    program fails its check. -/
theorem base_ends_within_rounds (program : FlowGraph) :
    ∃ N, ∀ {σ : Type} (a : Analysis σ), a.setting.program = program → a.dispatcher = .base →
      N ≤ a.setting.options.maxIterations → ∀ w : World σ,
        (∃ result, (a.fixedPoint.run.run w).1 = .ok result) ∨
        ∃ e, (a.fixedPoint.run.run w).1 = .error e ∧
          (∀ bound, e ≠ .analysis (.noFixedPoint bound)) ∧
          (e.Missing ∨ program.check = .error e) := by
  obtain ⟨N, enough⟩ := program.exists_rounds
  refine ⟨N, ?_⟩
  rintro σ a rfl base allowed w
  obtain ⟨-, -, failed⟩ := safe_fixedPoint_base base w trivial
  cases ended : (a.fixedPoint.run.run w).1 with
  | ok result => exact .inl ⟨result, rfl⟩
  | error e =>
      refine .inr ⟨e, rfl, ?_⟩
      rcases failed e ended with stops | ⟨-, main, order, found, ordered, more⟩
      · exact ⟨fun bound same => stops.not_cutOff ⟨bound, same⟩, stops⟩
      · rw [Outline.orbit_eq_none_of_le (enough main order found ordered) allowed] at more
        cases more

/-- A loop that appends to a string and writes a property under it. -/
def namingLoop : FlowGraph :=
  .sketch [] 1
    [(0, .constant 0 (.string "a")), (0, .writeVariable "name" 0), (0, .newObject 1),
      (1, .readVariable 2 "name"), (1, .binaryOperator 3 .add 2 0), (1, .writeVariable "name" 3),
      (1, .writeProperty 1 (.dynamic 3) 0)]
    [(0, 1), (1, 1)]

/-- Names that get longer and longer do not keep the ordinary rules from coming to an end. -/
theorem namingLoop_ends :
    namingLoop.check = .ok () ∧ ∃ N, ∀ host w,
      let a : Analysis Unit := ⟨⟨host, namingLoop, { maxIterations := N }⟩, .base⟩
      (∃ result, (a.fixedPoint.run.run w).1 = .ok result) ∨
        ∃ e, (a.fixedPoint.run.run w).1 = .error e ∧ e.Missing := by
  have checked : namingLoop.check = .ok () := by rfl
  obtain ⟨N, ends⟩ := base_ends_within_rounds namingLoop
  refine ⟨checked, N, fun host w => ?_⟩
  refine Or.imp_right ?_
    (ends ⟨⟨host, namingLoop, { maxIterations := N }⟩, .base⟩ rfl rfl (Nat.le_refl N) w)
  rintro ⟨e, failed, -, missing | refused⟩
  · exact ⟨e, failed, missing⟩
  · rw [checked] at refused
    cases refused

end Analysis

end ScriptHeap
