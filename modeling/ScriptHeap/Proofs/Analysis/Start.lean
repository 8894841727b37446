import ScriptHeap.Proofs.Analysis.Rounds
import ScriptHeap.Proofs.State.Contents

/-!
# From the start of an analysis to its fixed point

An analysis starts with the states in which its functions are entered. They are well formed, and
what they hold does not depend on what has been interned. From them, a run that passes over no error
goes through its visits to a point where nothing waits (`Analysis.runs_of_fixedPoint`).
-/

namespace ScriptHeap

open Fallible

/-! ### Start states -/

namespace State

/-- The state in which an unknown caller enters a function. -/
def entered (t : Interner) (f : Function) (copyOnWriteDisabled : Bool) : State :=
  ((initial t f.index .main copyOnWriteDisabled).1.enterFunction
    (initial t f.index .main copyOnWriteDisabled).2 f
    (List.replicate f.parameters.length .anyPrimitive)).1

theorem initial_wellFormed (t : Interner) (function : Nat) (context : CallString)
    (copyOnWriteDisabled : Bool) :
    (initial t function context copyOnWriteDisabled).1.WellFormed := by
  have empty : ({ (initial t function context copyOnWriteDisabled).1 with heap := ∅ }
      : State).WellFormed := ⟨nofun, nofun⟩
  exact empty.insertCell .global .absentModified

theorem argument_wellFormed {arguments : List Value} (formed : ∀ v ∈ arguments, v.WellFormed)
    (i : Nat) : (arguments.getD i .undefined).joinModified.WellFormed := by
  refine Value.WellFormed.joinModified ?_
  rw [List.getD_eq_getElem?_getD]
  cases found : arguments[i]? with
  | none => exact .ofFlags _
  | some v => exact formed v (List.mem_of_getElem? found)

theorem activationShape_wellFormed (f : Function) {arguments : List Value}
    (formed : ∀ v ∈ arguments, v.WellFormed) : (activationShape f arguments).WellFormed := by
  refine Shape.WellFormed.foldl_set _ .absentModified ?_
  intro entry member
  rcases List.mem_append.mp member with parameter | declared
  · obtain ⟨⟨name, i⟩, _, rfl⟩ := List.mem_map.mp parameter
    exact argument_wellFormed formed i
  · obtain ⟨name, _, rfl⟩ := List.mem_map.mp declared
    exact (Value.WellFormed.ofFlags _).joinModified

theorem argumentsShape_wellFormed (f : Function) {arguments : List Value}
    (formed : ∀ v ∈ arguments, v.WellFormed) : (argumentsShape f arguments).WellFormed :=
  Shape.WellFormed.foldl_set (List.range f.parameters.length) .absentModified
    fun i _ => argument_wellFormed formed i

theorem enterFunction_wellFormed {s : State} (formed : s.WellFormed) (t : Interner) (f : Function)
    {arguments : List Value} (formedArguments : ∀ v ∈ arguments, v.WellFormed) :
    (s.enterFunction t f arguments).1.WellFormed := by
  unfold enterFunction
  split
  · exact formed
  · have activation := (HeapStep.newObject (.activation f.index)
      (o := .ofShape (activationShape f arguments))
      (activationShape_wellFormed f formedArguments)).formed rfl formed
    exact (HeapStep.newObject (.arguments f.index) (o := .ofShape (argumentsShape f arguments))
      (argumentsShape_wellFormed f formedArguments)).formed rfl activation

theorem entered_wellFormed (t : Interner) (f : Function) (copyOnWriteDisabled : Bool) :
    (entered t f copyOnWriteDisabled).WellFormed := by
  refine enterFunction_wellFormed (initial_wellFormed _ _ _ _) _ f ?_
  intro v member
  rw [List.eq_of_mem_replicate member]
  exact .ofFlags _

theorem context_entered (t : Interner) (f : Function) (copyOnWriteDisabled : Bool) :
    (entered t f copyOnWriteDisabled).context = .main := by
  unfold entered enterFunction
  split <;> rfl

/-! What the start states hold does not depend on the interner. -/

theorem shapes_initial (t u : Interner) (function : Nat) (context : CallString)
    (copyOnWriteDisabled : Bool) :
    (initial t function context copyOnWriteDisabled).1.shapes =
      (initial u function context copyOnWriteDisabled).1.shapes := by
  funext label
  unfold shapes object? initial
  simp only [FinMap.get?_insert]
  split <;> rfl

theorem shapes_enterFunction {s s' : State} (same : s.shapes = s'.shapes) (t u : Interner)
    (f : Function) (arguments : List Value) :
    (s.enterFunction t f arguments).1.shapes = (s'.enterFunction u f arguments).1.shapes := by
  unfold enterFunction
  split
  · exact same
  · simp only [shapes_newObject, same]

theorem shapes_entered (t u : Interner) (f : Function) (copyOnWriteDisabled : Bool) :
    (entered t f copyOnWriteDisabled).shapes = (entered u f copyOnWriteDisabled).shapes :=
  shapes_enterFunction (shapes_initial t u _ _ _) _ _ f _

theorem registers_entered (t : Interner) (f : Function) (copyOnWriteDisabled : Bool) :
    (entered t f copyOnWriteDisabled).registers = ∅ := by
  unfold entered enterFunction
  split <;> rfl

theorem entered_factsWithin (t u : Interner) (f : Function) (copyOnWriteDisabled : Bool) :
    (entered t f copyOnWriteDisabled).FactsWithin (entered u f copyOnWriteDisabled) := by
  unfold entered enterFunction
  split <;> exact ⟨.refl _, .refl _⟩

/-- Only registers and shapes matter to covering. -/
theorem Covers.congr {s t t' : State} (covered : s.Covers t)
    (registers : t.registers = t'.registers) (shapes : t.shapes = t'.shapes) : s.Covers t' where
  registers := registers ▸ covered.registers
  shapes := shapes ▸ covered.shapes

end State

theorem Entries.Receives.congr {entries : Entries} {p q : Push} (received : entries.Receives p)
    (point : p.point = q.point) (registers : p.state.registers = q.state.registers)
    (shapes : p.state.shapes = q.state.shapes) (facts : p.state.FactsWithin q.state) :
    entries.Receives q := by
  obtain ⟨target, found, covers, within⟩ := received
  exact ⟨target, point ▸ found, covers.congr registers shapes, within.trans facts⟩

/-! ### The start -/

namespace Analysis

variable {σ : Type} {a : Analysis σ} {order : List Nat}

/-- The flow of the state at the start of the program body. -/
def bodyStart (a : Analysis σ) (main : Function) (t : Interner) : Push :=
  ⟨(State.initial t main.index .main a.setting.options.copyOnWriteDisabled).1, ⟨main.entry, .main⟩⟩

/-- The flow of the state at the start of a function. -/
def functionStart (a : Analysis σ) (f : Function) (t : Interner) : Push :=
  ⟨State.entered t f a.setting.options.copyOnWriteDisabled, ⟨f.entry, .main⟩⟩

theorem of_startFunctions {functions : List Function} {entries entries' : Entries} {w w' : World σ}
    (started : (functions.foldlM
      (fun entries f => do
        let s ← a.startState f
        let arguments := List.replicate f.parameters.length Value.anyPrimitive
        let s ← interning fun t => s.enterFunction t f arguments
        return entries.flow order s ⟨f.entry, .main⟩)
      entries : Analyzing σ Entries).run.run w = (.ok entries', w')) :
    w'.host = w.host ∧ ∃ starts, entries' = entries.flowAll order starts ∧
      (∀ f ∈ functions, ∃ t, a.functionStart f t ∈ starts) ∧
      ∀ push ∈ starts, ∃ f t, push = a.functionStart f t := by
  induction functions generalizing entries w with
  | nil =>
      cases started
      exact ⟨rfl, [], rfl, nofun, nofun⟩
  | cons f rest ih =>
      rw [List.foldlM_cons] at started
      obtain ⟨entries₁, w₁, first, later⟩ := of_run_bind started
      obtain ⟨host, starts, flowed, each, all⟩ := ih later
      cases first
      refine ⟨host, a.functionStart f w.interner :: starts, flowed, ?_, ?_⟩
      · intro other member
        rcases List.mem_cons.mp member with rfl | member
        · exact ⟨w.interner, List.mem_cons_self⟩
        · obtain ⟨t, listed⟩ := each other member
          exact ⟨t, List.mem_cons_of_mem _ listed⟩
      · intro push member
        rcases List.mem_cons.mp member with rfl | member
        · exact ⟨f, w.interner, rfl⟩
        · exact all push member

/-- The start lets the body and every other function flow in, and asks the host nothing. -/
theorem of_start {main : Function} {entries : Entries} {w w' : World σ}
    (started : (a.start order main).run.run w = (.ok entries, w')) :
    w'.host = w.host ∧ ∃ starts, entries = Entries.empty.flowAll order starts ∧
      Entries.FormedPushes starts ∧ (∃ t, a.bodyStart main t ∈ starts) ∧
      ∀ f ∈ a.setting.program.functions, f.isMain = false → ∃ t, a.functionStart f t ∈ starts := by
  obtain ⟨s, w₁, first, later⟩ := of_run_bind started
  obtain ⟨host, starts, flowed, each, all⟩ := of_startFunctions later
  cases first
  refine ⟨host, a.bodyStart main w.interner :: starts, flowed, ?_,
    ⟨w.interner, List.mem_cons_self⟩, ?_⟩
  · intro push member
    rcases List.mem_cons.mp member with rfl | member
    · exact ⟨State.initial_wellFormed _ _ _ _, rfl⟩
    · obtain ⟨f, t, rfl⟩ := all push member
      exact ⟨State.entered_wellFormed _ _ _, State.context_entered _ _ _⟩
  · intro f member named
    obtain ⟨t, listed⟩ := each f (List.mem_filter.mpr ⟨member, by simp [named]⟩)
    exact ⟨t, List.mem_cons_of_mem _ listed⟩

theorem formed_empty : Entries.empty.Formed := ⟨nofun, nofun⟩

/-- The visits of a run, in order. -/
def visits (a : Analysis σ) (w : World σ) : List (Visit σ) :=
  match a.setting.program.main with
  | .error _ => []
  | .ok main =>
    match a.setting.program.graph.reversePostOrder main.entry with
    | .error _ => []
    | .ok order =>
      match (a.start order main).run.run { w with interner := w.interner.reset } with
      | (.error _, _) => []
      | (.ok entries, w₁) => a.history order a.setting.options.maxIterations entries w₁

/-- A run from one world to another that passes over no error. -/
def Runs (a : Analysis σ) (w : World σ) (last : Entries) (w' : World σ) : Prop :=
  ∃ main order entries w₁, a.setting.program.main = .ok main ∧
    (a.start order main).run.run { w with interner := w.interner.reset } = (.ok entries, w₁) ∧
    a.Trace order entries w₁ (a.visits w) last w'

theorem fixedPoint_cases {w w' : World σ} {result : FixedPoint}
    (done : a.fixedPoint.run.run w = (.ok result, w')) :
    ∃ main order entries w₁ p, a.setting.program.main = .ok main ∧
      a.setting.program.graph.reversePostOrder main.entry = .ok order ∧
      (a.start order main).run.run { w with interner := w.interner.reset } = (.ok entries, w₁) ∧
      (a.iterate w.interner.reset.run order a.setting.options.maxIterations
        ⟨entries, 0, []⟩).run.run w₁ = (.ok p, w') ∧
      result = ⟨w.interner.reset.run, p.entries.states, p.iterations, p.unsound⟩ := by
  obtain ⟨run, w₁, reset, rest⟩ := of_run_bind done
  cases reset
  obtain ⟨_, _, rest⟩ := of_run_ofResult rest
  obtain ⟨main, foundMain, rest⟩ := of_run_ofResult rest
  obtain ⟨order, foundOrder, rest⟩ := of_run_ofResult rest
  obtain ⟨entries, w₂, started, rest⟩ := of_run_bind rest
  obtain ⟨p, w₃, iterated, rest⟩ := of_run_bind rest
  cases rest
  exact ⟨main, order, entries, w₂, p, foundMain, foundOrder, started, iterated, rfl⟩

/-- A sound fixed point is what its visits lead to. -/
theorem runs_of_fixedPoint {w w' : World σ} {result : FixedPoint}
    (done : a.fixedPoint.run.run w = (.ok result, w')) (sound : result.isSound = true) :
    ∃ last, a.Runs w last w' ∧ last.states = result.states := by
  obtain ⟨main, order, entries, w₁, p, foundMain, foundOrder, started, iterated, rfl⟩ :=
    fixedPoint_cases done
  obtain ⟨_, trace⟩ := of_iterate iterated (List.isEmpty_iff.mp sound)
  refine ⟨p.entries, ⟨main, order, entries, w₁, foundMain, started, ?_⟩, rfl⟩
  unfold visits
  simp only [foundMain, foundOrder, started]
  exact trace

variable {good : σ → Prop}

/-- At the end of a run every point has settled at its last visit, and the start states are still
    received. -/
theorem Runs.outcome (regular : a.Regular good) {w w' : World σ} {last : Entries}
    (run : a.Runs w last w') (memory : good w.host) :
    (∀ point e, last.states.get? point = some e → ∃ visit,
      Visit.last? (a.visits w) point = some visit ∧ a.Settled last visit e ∧
      good visit.world.host) ∧
    (∀ main, a.setting.program.main = .ok main → ∀ t, last.Receives (a.bodyStart main t)) ∧
    (∀ f ∈ a.setting.program.functions, f.isMain = false → ∀ t,
      last.Receives (a.functionStart f t)) ∧
    good w'.host := by
  obtain ⟨main, order, entries, w₁, foundMain, started, trace⟩ := run
  obtain ⟨host, starts, rfl, formedStarts, body, functions⟩ := of_start started
  have formed := Entries.flowAll_formed order formed_empty formedStarts
  have received := Entries.flowAll_receives order formed_empty formedStarts
  have waiting : a.Invariant (Entries.empty.flowAll order starts) [] := by
    intro point e found
    have grows := Entries.flowAll_grows order formed_empty formedStarts
    exact .inl ((grows.fresh point e found).resolve_left nofun)
  have outcome := trace.outcome regular [] formed waiting (by rw [host]; exact memory)
  refine ⟨?_, ?_, ?_, outcome.memory⟩
  · intro point e found
    obtain ⟨visit, latest, settled⟩ :=
      (outcome.invariant point e found).resolve_left (outcome.idle point)
    exact ⟨visit, latest, settled, outcome.memories visit (Visit.mem_of_last? latest).1⟩
  · intro main' foundMain' t
    obtain rfl : main = main' := Except.ok.inj (foundMain.symm.trans foundMain')
    obtain ⟨u, listed⟩ := body
    have start := outcome.received _ (formedStarts _ listed).1 (received _ listed)
    exact start.congr rfl rfl (State.shapes_initial u t _ _ _) ⟨.refl _, .refl _⟩
  · intro f member named t
    obtain ⟨u, listed⟩ := functions f member named
    have start := outcome.received _ (formedStarts _ listed).1 (received _ listed)
    refine start.congr rfl ?_ (State.shapes_entered u t f _) (State.entered_factsWithin u t f _)
    exact (State.registers_entered u f _).trans (State.registers_entered t f _).symm

end Analysis

end ScriptHeap
