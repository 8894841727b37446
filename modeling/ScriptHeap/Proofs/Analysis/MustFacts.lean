import ScriptHeap.Proofs.Analysis.PostFixpoint
import ScriptHeap.Proofs.Transfer.Logic

/-!
# Facts at a fixed point

A point keeps a fact about a register while all states that flow into it have the fact. Values grow
and facts go, but only a change of the values makes a point wait again: a point may lose a fact
after its last visit, and its successors, which were given the fact at that visit, are not told.

So a fact of a successor need not be one of the state in which the block leaves its entry state. It
is one exactly where the entry state still has it or the block itself makes it, whatever facts it
starts with.
-/

namespace ScriptHeap

open Fallible

/-! ### Analyses by the ordinary rules pass over no error -/

namespace Analysis

variable {σ : Type} {a : Analysis σ}

theorem ends_transferBlock (base : a.dispatcher = .base) (block : Block) :
    Safe (fun _ => True) Error.Missing (a.dispatcher.transferBlock a.setting block)
      (· = .pending) := by
  rw [base]
  exact Dispatcher.safe_transferNodes_base (fun _ _ _ _ _ _ _ => trivial) block.index block.nodes

theorem unsound_of_work (base : a.dispatcher = .base) {run : Nat} {order : List Nat}
    {p q : Progress} {point : ProgramPoint} {w w' : World σ}
    (worked : (a.work run order p point).run.run w = (.ok q, w')) : q.unsound = p.unsound := by
  obtain ⟨entry, block, outcome, m, _, _, ran, _, rounded⟩ := work_cases worked
  obtain ⟨_, _, missing⟩ := ends_transferBlock base block ⟨w, entry, []⟩ trivial
  rw [ran] at missing
  cases outcome with
  | error e =>
      have fatal := (missing e rfl).isFatal
      have passed := rounded.1
      rw [Error.locate_of_isFatal fatal, fatal] at passed
      cases passed
  | ok handover =>
      obtain ⟨_, _, rfl⟩ := rounded
      rfl

theorem unsound_of_iterate (base : a.dispatcher = .base) {run : Nat} {order : List Nat}
    {rounds : Nat} {p q : Progress} {w w' : World σ}
    (iterated : (a.iterate run order rounds p).run.run w = (.ok q, w')) :
    q.unsound = p.unsound := by
  induction rounds generalizing p w with
  | zero =>
      rcases iterate_cases iterated with ⟨_, rfl, _⟩ | ⟨_, _, _, _, _, _, rounds, _⟩
      · rfl
      · cases rounds
  | succ rounds ih =>
      rcases iterate_cases iterated with ⟨_, rfl, _⟩ | ⟨_, _, _, _, _, _, same, worked, later⟩
      · rfl
      · cases same
        have kept := unsound_of_work base worked
        exact (ih later).trans kept

/-- A fixed point by the ordinary rules is sound. -/
theorem isSound_of_base (base : a.dispatcher = .base) {w w' : World σ} {result : FixedPoint}
    (done : a.fixedPoint.run.run w = (.ok result, w')) : result.isSound = true := by
  obtain ⟨_, _, _, _, p, _, _, _, iterated, rfl⟩ := fixedPoint_cases done
  exact List.isEmpty_iff.mpr (unsound_of_iterate base iterated)

/-! ### The state after a block -/

/-- Run the block of a point on a state, for the state after it. -/
def outState (a : Analysis σ) (point : ProgramPoint) (entry : State) : Analyzing σ State := do
  let block ← ofResult (a.setting.program.block point.block)
  let (outcome, s, _) ← a.transfer block entry
  let _ ← ofResult outcome
  return s

/-- In a world, the block of a point leads from one state to another. -/
def LeadsTo (a : Analysis σ) (point : ProgramPoint) (world : World σ) (entry out : State) : Prop :=
  ∃ world', (a.outState point entry).run.run world = (.ok out, world')

theorem simulates_of_base (base : a.dispatcher = .base) (s t : State) (node : Node) :
    (Host.free s t : Coupling σ σ).Simulates (a.dispatcher.dispatch a.setting node)
      (a.dispatcher.dispatch a.setting node) Eq := by
  rw [base]
  exact .dispatch_base ⟨rfl, rfl⟩ node

theorem leadsTo_iff {point : ProgramPoint} {world : World σ} {entry out : State} :
    a.LeadsTo point world entry out ↔
      ∃ block handover m, a.setting.program.block point.block = .ok block ∧
        (a.dispatcher.transferBlock a.setting block).run.run ⟨world, entry, []⟩ =
          (.ok handover, m) ∧ m.state = out := by
  constructor
  · rintro ⟨world', ran⟩
    obtain ⟨block, found, rest⟩ := of_run_ofResult ran
    rcases transferred : (a.dispatcher.transferBlock a.setting block).run.run
      ⟨world, entry, []⟩ with ⟨outcome, m⟩
    rw [run_bind_of_ok _ (run_transfer a block entry world transferred)] at rest
    obtain ⟨handover, rfl, rest⟩ := of_run_ofResult rest
    cases rest
    exact ⟨block, handover, m, found, transferred, rfl⟩
  · rintro ⟨block, handover, m, found, transferred, rfl⟩
    have known : (ofResult (a.setting.program.block point.block) : Analyzing σ Block).run.run
        world = (.ok block, world) := by
      rw [found]
      rfl
    refine ⟨m.toWorld, ?_⟩
    unfold outState
    rw [run_bind_of_ok _ known, run_bind_of_ok _ (run_transfer a block entry world transferred)]
    rfl

/-- By the ordinary rules, the state after a block goes to all its successors. -/
theorem leadsTo_of_deliveries (base : a.dispatcher = .base) {point : ProgramPoint}
    {entry : State} {w w' : World σ} {pushes : List Push}
    (delivered : (a.deliveries point entry).run.run w = (.ok pushes, w')) :
    ∃ out bs, a.LeadsTo point w entry out ∧ a.setting.program.successors point.block = .ok bs ∧
      ∀ b ∈ bs, ⟨out.freezeHeap, ⟨b, point.context⟩⟩ ∈ pushes := by
  obtain ⟨block, handover, m, found, ran, _, handsOn⟩ := of_deliveries delivered
  obtain ⟨_, pending, _⟩ := ends_transferBlock base block ⟨w, entry, []⟩ trivial
  rw [ran] at pending
  obtain rfl := pending handover rfl
  obtain ⟨bs, known, rfl⟩ := handsOn
  refine ⟨m.state, bs, leadsTo_iff.mpr ⟨block, .pending, m, found, ran, rfl⟩, known, ?_⟩
  intro b member
  exact List.mem_append_right _ (List.mem_map.mpr ⟨b, member, rfl⟩)

/-- Blocks lead from states that agree to states that agree, in any two worlds. -/
theorem LeadsTo.simulated (base : a.dispatcher = .base) {point : ProgramPoint}
    {w v : World σ} {s t out : State} (formed : s.WellFormed) (values : s.SameValues t)
    (leads : a.LeadsTo point w s out) :
    ∃ out', a.LeadsTo point v t out' ∧ State.Agree s t out out' := by
  obtain ⟨block, handover, m, found, ran, rfl⟩ := leadsTo_iff.mp leads
  have coupled : (Host.free s t : Coupling σ σ).Machines ⟨w, s, []⟩ ⟨v, t, []⟩ :=
    ⟨.start formed values, trivial, .nil⟩
  obtain ⟨other, n, ranOther, coupled', _⟩ :=
    Coupling.Simulates.transferNodes (simulates_of_base base s t) block.index block.nodes
      _ _ _ _ coupled ran
  exact ⟨n.state, leadsTo_iff.mpr ⟨block, other, n, found, ranOther, rfl⟩, coupled'.states⟩

end Analysis

/-! ### Facts -/

/-- Of the entries of the first map, the second has exactly those that the third or the fourth
    has. -/
def FinMap.Picks {κ ν : Type} [Ord κ] (facts out kept made : FinMap κ ν) : Prop :=
  ∀ key v, facts.get? key = some v →
    (out.get? key = some v ↔ kept.get? key = some v ∨ made.get? key = some v)

/-- A block that changes the facts of `visited` to `left`, those of `entry` to `out` and none to
    `bare` has the facts of `left` that `entry` has or that are in `bare`. -/
theorem FinMap.Picks.of_sameChanges {κ ν : Type} [Ord κ]
    {facts visited left entry out bare : FinMap κ ν} (within : facts.Within left)
    (again : SameChanges visited left entry out) (stripped : SameChanges entry out ∅ bare) :
    facts.Picks out entry bare := by
  intro key v fact
  have had : left.get? key = some v := within key v fact
  have noFact : (∅ : FinMap κ ν).get? key = none := rfl
  constructor
  · intro after
    rcases stripped key with same | ⟨unchanged, _⟩
    · exact .inr (same.symm.trans after)
    · exact .inl (unchanged.symm.trans after)
  · rintro (kept | made)
    · rcases again key with same | ⟨_, unchanged⟩
      · exact same.symm.trans had
      · exact unchanged.trans kept
    · rcases stripped key with same | ⟨_, unchanged⟩
      · exact same.trans made
      · rw [unchanged, noFact] at made
        cases made

/-- The state without its facts. -/
def State.withoutFacts (s : State) : State := { s with mustDefs := ∅, mustEquals := ∅ }

namespace Analysis

variable {σ : Type} {a : Analysis σ}

/-- Along every edge of a fixed point by the ordinary rules, a fact of the successor is one of the
    state after the block exactly if the entry state of the block has it, or the block makes it from
    a state without facts. -/
theorem successor_facts_iff (base : a.dispatcher = .base) {w w' : World σ} {result : FixedPoint}
    (done : a.fixedPoint.run.run w = (.ok result, w')) {point : ProgramPoint} {entry : State}
    (reached : result.states.get? point = some entry) {bs : List Nat}
    (edges : a.setting.program.successors point.block = .ok bs) {b : Nat} (edge : b ∈ bs)
    (world : World σ) :
    ∃ out bare target, a.LeadsTo point world entry out ∧
      a.LeadsTo point world entry.withoutFacts bare ∧
      result.states.get? ⟨b, point.context⟩ = some target ∧
      target.mustDefs.Picks out.mustDefs entry.mustDefs bare.mustDefs ∧
      target.mustEquals.Picks out.mustEquals entry.mustEquals bare.mustEquals := by
  have regular : a.Regular fun _ => True :=
    regular_of_simulates (simulates_of_base base) (fun _ _ => trivial) fun _ _ _ => trivial
  obtain ⟨last, run, states⟩ := runs_of_fixedPoint done (isSound_of_base base done)
  obtain ⟨settles, _⟩ := run.outcome regular trivial
  rw [← states] at reached ⊢
  obtain ⟨visit, latest, settled, _⟩ := settles point entry reached
  obtain rfl : visit.point = point := (Visit.mem_of_last? latest).2
  obtain ⟨pushes, _, delivered, received⟩ := settled.received
  -- What the last visit gave to the successor has all the facts that are left there.
  obtain ⟨left, bs', leads, edges', handedOn⟩ := leadsTo_of_deliveries base delivered
  obtain rfl : bs' = bs := Except.ok.inj (edges'.symm.trans edges)
  obtain ⟨_, target, found, _, within⟩ := received _ (handedOn b edge)
  -- The block changes the facts of that visit, those of the entry state and none in the same way.
  obtain ⟨out, leadsAgain, again⟩ := leads.simulated base (v := world) settled.formed settled.values
  have formed : entry.WellFormed := (State.Agree.start settled.formed settled.values).formed_right
  obtain ⟨bare, leadsBare, stripped⟩ :=
    leadsAgain.simulated base (v := world) (t := entry.withoutFacts) formed rfl
  exact ⟨out, bare, target, leadsAgain, leadsBare, found,
    .of_sameChanges within.mustDefs again.mustDefs stripped.mustDefs,
    .of_sameChanges within.mustEquals again.mustEquals stripped.mustEquals⟩

/-! ### A loop -/

/-- A loop at block 1 whose body, block 2, writes a register. Block 0 has written register 0, and
    block 3 comes after the loop. -/
def nullLoop (written : Register) : Analysis Unit where
  setting := {
    host := .uniform .anyNumber
    program := .sketch [] 3 [(0, .constant 0 .null), (2, .constant written .null)]
      [(0, 1), (1, 2), (1, 3), (2, 1)]
    options := {} }
  dispatcher := .base

/-- The node that register 0 was written at, at the entry of block 1, at that of block 3, and after
    block 1 is run on its entry state once more. -/
def exitFacts (a : Analysis Unit) : Option (Option Nat × Option Nat × Option Nat) :=
  match a.fixedPoint.run.run ⟨.initial, (), []⟩ with
  | (.error _, _) => none
  | (.ok result, w') =>
    match result.states.get? ⟨1, .main⟩, result.states.get? ⟨3, .main⟩ with
    | some entry, some target =>
      match (a.outState ⟨1, .main⟩ entry).run.run w' with
      | (.error _, _) => none
      | (.ok out, _) => some (entry.mustDefs.get? 0, target.mustDefs.get? 0, out.mustDefs.get? 0)
    | _, _ => none

theorem of_exitFacts {a : Analysis Unit} {x y z : Option Nat}
    (shown : exitFacts a = some (x, y, z)) :
    ∃ result w' entry target out, a.fixedPoint.run.run ⟨.initial, (), []⟩ = (.ok result, w') ∧
      result.states.get? ⟨1, .main⟩ = some entry ∧ result.states.get? ⟨3, .main⟩ = some target ∧
      a.LeadsTo ⟨1, .main⟩ w' entry out ∧ entry.mustDefs.get? 0 = x ∧
      target.mustDefs.get? 0 = y ∧ out.mustDefs.get? 0 = z := by
  unfold exitFacts at shown
  split at shown
  · cases shown
  · rename_i result w' ran
    split at shown
    · rename_i entry target atHead atExit
      split at shown
      · cases shown
      · rename_i out world' left
        cases shown
        exact ⟨result, w', entry, target, out, ran, atHead, atExit, ⟨world', left⟩, rfl, rfl, rfl⟩
    · cases shown

/-- A body that writes register 0 takes the fact from the head of the loop. The block after the loop
    still has it. -/
theorem nullLoop_exit_keeps_lost_fact :
    ∃ result w' entry target out,
      (nullLoop 0).fixedPoint.run.run ⟨.initial, (), []⟩ = (.ok result, w') ∧
      result.states.get? ⟨1, .main⟩ = some entry ∧ result.states.get? ⟨3, .main⟩ = some target ∧
      (nullLoop 0).setting.program.successors 1 = .ok [2, 3] ∧
      (nullLoop 0).LeadsTo ⟨1, .main⟩ w' entry out ∧ target.mustDefs.get? 0 = some 0 ∧
      ¬ target.FactsWithin out := by
  have shown : exitFacts (nullLoop 0) = some (none, some 0, none) := by decide +kernel
  obtain ⟨result, w', entry, target, out, ran, atHead, atExit, leads, _, claimed, gone⟩ :=
    of_exitFacts shown
  refine ⟨result, w', entry, target, out, ran, atHead, atExit, rfl, leads, claimed, ?_⟩
  intro within
  have held := within.mustDefs 0 0 claimed
  rw [gone] at held
  cases held

/-- A body that writes another register leaves the fact at the head of the loop, and so the fact of
    the block after the loop is one of the state after the head. -/
theorem nullLoop_exit_fact_holds :
    ∃ result w' entry target out,
      (nullLoop 1).fixedPoint.run.run ⟨.initial, (), []⟩ = (.ok result, w') ∧
      result.states.get? ⟨1, .main⟩ = some entry ∧ result.states.get? ⟨3, .main⟩ = some target ∧
      (nullLoop 1).LeadsTo ⟨1, .main⟩ w' entry out ∧ target.mustDefs.get? 0 = some 0 ∧
      out.mustDefs.get? 0 = some 0 := by
  have shown : exitFacts (nullLoop 1) = some (some 0, some 0, some 0) := by decide +kernel
  obtain ⟨result, w', entry, target, _, ran, atHead, atExit, _, kept, claimed, _⟩ :=
    of_exitFacts shown
  have edges : (nullLoop 1).setting.program.successors 1 = .ok [2, 3] := rfl
  obtain ⟨out, _, target', leads, _, found, picks, _⟩ :=
    successor_facts_iff (b := 3) rfl ran atHead edges (by decide) w'
  obtain rfl : target' = target := Option.some.inj (found.symm.trans atExit)
  exact ⟨result, w', entry, target', out, ran, atHead, atExit, leads, claimed,
    (picks 0 0 claimed).mpr (.inl kept)⟩

end Analysis

end ScriptHeap
