import ScriptHeap.Proofs.Analysis.Start
import ScriptHeap.Proofs.Transfer.Foreign

/-!
# Fixed points are post-fixed points

If the answers of the host do not depend on what it was asked before, then a sound fixed point is
stable: each of its points can be run again, in any world, and every state that it delivers is
absorbed by the entry state of a point that was reached.

A point has settled on the values that it has in the result. Running it again may meet other facts,
another interner and another memory of the host; by simulation, what it delivers has the same values
all the same.
-/

namespace ScriptHeap

/-! ### Running a point again -/

namespace Analysis

variable {σ τ : Type} {a : Analysis σ} {b : Analysis τ} {K : Coupling σ τ}

/-- Coupled runs of a point deliver states that agree. -/
theorem deliveries_simulated (settings : Coupling.Settings a.setting b.setting)
    (nodes : ∀ node, K.Simulates (a.dispatcher.dispatch a.setting node)
      (b.dispatcher.dispatch b.setting node) Eq)
    (start : K.States K.first K.second) {point : ProgramPoint}
    (context : K.first.context = point.context) {w w' : World σ} {v : World τ}
    (memory : K.memory w.host v.host) {pushes : List Push}
    (delivered : (a.deliveries point K.first).run.run w = (.ok pushes, w')) :
    ∃ pushes' v', (b.deliveries point K.second).run.run v = (.ok pushes', v') ∧
      K.memory w'.host v'.host ∧ List.Forall₂ K.Pushes pushes pushes' := by
  obtain ⟨block, handover, m, found, ran, rfl, handsOn⟩ := of_deliveries delivered
  have coupled : K.Machines ⟨w, K.first, []⟩ ⟨v, K.second, []⟩ := ⟨start, memory, .nil⟩
  obtain ⟨_, n, ranOther, coupled', rfl⟩ :=
    Coupling.Simulates.transferNodes nodes block.index block.nodes _ _ _ _ coupled ran
  have foundOther : b.setting.program.block point.block = .ok block := by
    rw [settings.program, found]
  cases handover with
  | done =>
      obtain rfl : pushes = m.pushes := handsOn
      exact ⟨n.pushes, n.toWorld, run_deliveries foundOther ranOther rfl, coupled'.memory,
        coupled'.pushes⟩
  | pending =>
      obtain ⟨successors, known, rfl⟩ := handsOn
      have knownOther : b.setting.program.successors point.block = .ok successors := by
        rw [settings.program, known]
      refine ⟨_, n.toWorld, run_deliveries foundOther ranOther ⟨successors, knownOther, rfl⟩,
        coupled'.memory, List.rel_append coupled'.pushes ?_⟩
      refine List.forall₂_map_left_iff.mpr (List.forall₂_map_right_iff.mpr ?_)
      exact List.forall₂_same.mpr fun block _ => ⟨coupled'.states.freezeHeap, rfl, context.symm⟩

/-- An analysis that simulates itself is regular. -/
theorem regular_of_simulates {good : σ → Prop} {memory : σ → σ → Prop}
    (simulates : ∀ s t node, (Coupling.mk s t memory).Simulates
      (a.dispatcher.dispatch a.setting node) (a.dispatcher.dispatch a.setting node) Eq)
    (refl : ∀ h, good h → memory h h) (keeps : ∀ h k, memory h k → good h) : a.Regular good := by
  intro point entry w pushes w' formed context start delivered
  obtain ⟨pushes', v', deliveredAgain, memory', coupled⟩ :=
    deliveries_simulated (K := ⟨entry, entry, memory⟩) ⟨rfl, rfl⟩ (simulates entry entry)
      (.start formed rfl) context (refl w.host start) delivered
  -- Both runs are the same, so each push is coupled with a push of its own run.
  obtain ⟨same, rfl⟩ := Prod.mk.inj (delivered.symm.trans deliveredAgain)
  obtain rfl := Except.ok.inj same
  refine ⟨keeps _ _ memory', ?_, ?_⟩
  · intro push member
    obtain ⟨other, _, pair⟩ := Coupling.Pushes.partner _ coupled member
    refine ⟨pair.states.formed_right, ?_⟩
    rw [pair.states.sameContext, pair.states.context, pair.point, pair.context]
  · intro push member
    obtain ⟨other, _, pair⟩ := Coupling.Pushes.partner _ coupled member
    rw [pair.point, pair.context]
    exact context

end Analysis

/-! ### Stability -/

/-- The answer to a call does not depend on the memory. -/
def HostCall.HistoryFree {σ α : Type} (call : HostCall σ α) : Prop :=
  ∀ h k, (call.run.run h).1 = (call.run.run k).1

/-- Values that the call answers with are built. -/
def HostCall.AnswersBuilt {σ : Type} (call : HostCall σ Value) : Prop :=
  ∀ h v, (call.run.run h).1 = .ok v → v.Built

namespace Host

variable {σ : Type}

/-- The answers of a host are fixed, whatever it was asked before. -/
structure HistoryFree (host : Host σ) : Prop where
  propertyValue : ∀ className property, (host.propertyValue className property).HistoryFree
  functionValue : ∀ className function, (host.functionValue className function).HistoryFree
  call : ∀ receiver method arguments, (host.call receiver method arguments).HistoryFree
  setProperty : ∀ receiver property v, (host.setProperty receiver property v).HistoryFree
  construct : ∀ site className, (host.construct site className).HistoryFree

/-- The values that a host answers with are built. -/
structure AnswersBuilt (host : Host σ) : Prop where
  propertyValue : ∀ className property, (host.propertyValue className property).AnswersBuilt
  functionValue : ∀ className function, (host.functionValue className function).AnswersBuilt
  call : ∀ receiver method arguments, (host.call receiver method arguments).AnswersBuilt
  construct : ∀ site className, (host.construct site className).AnswersBuilt

/-- The coupling that relates all memories. -/
def free (s t : State) : Coupling σ σ := ⟨s, t, fun _ _ => True⟩

theorem answers_of_historyFree {α : Type} {s t : State} {call : HostCall σ α}
    (historyFree : call.HistoryFree) {R : α → α → Prop}
    (related : ∀ h v, (call.run.run h).1 = .ok v → R v v) : (free s t).Answers call call R := by
  intro h k v h' _ answered
  have first : (call.run.run h).1 = .ok v := by rw [answered]
  have second : (call.run.run k).1 = .ok v := by rw [historyFree k h, first]
  exact ⟨v, (call.run.run k).2, Prod.ext second rfl, trivial, related h v first⟩

/-- A host with fixed answers answers alike in all memories. -/
theorem hosts_of_historyFree {host : Host σ} (historyFree : host.HistoryFree)
    (built : host.AnswersBuilt) (s t : State) : (free s t).Hosts host host where
  propertyValue := fun className property =>
    answers_of_historyFree (historyFree.propertyValue className property) fun h v answered =>
      ⟨rfl, (built.propertyValue className property h v answered).wellFormed⟩
  functionValue := fun className function =>
    answers_of_historyFree (historyFree.functionValue className function) fun h v answered =>
      ⟨rfl, (built.functionValue className function h v answered).wellFormed⟩
  call := fun receiver method arguments _ _ =>
    answers_of_historyFree (historyFree.call receiver method arguments) fun h v answered =>
      ⟨rfl, (built.call receiver method arguments h v answered).wellFormed⟩
  setProperty := fun receiver property v _ _ =>
    answers_of_historyFree (historyFree.setProperty receiver property v) fun _ _ _ => rfl
  construct := fun site className =>
    answers_of_historyFree (historyFree.construct site className) fun h v answered =>
      ⟨rfl, (built.construct site className h v answered).wellFormed⟩

end Host

/-- Joining the other state changes no register and no object, and says so. -/
structure State.Absorbs (s other : State) : Prop where
  quiet : (s.join other).1 = false
  registers : (s.join other).2.registers = s.registers
  heap : (s.join other).2.heap = s.heap

theorem State.Covers.absorbs {s other : State} (covered : s.Covers other) : s.Absorbs other :=
  ⟨join_changes_iff.mpr covered, covered.join_eq.1, covered.join_eq.2⟩

namespace Analysis

variable {σ : Type} {a : Analysis σ}

/-- An analysis by the ordinary rules, with or without the layer for host values. -/
def Standard (a : Analysis σ) : Prop :=
  a.dispatcher = .base ∨ a.dispatcher = Dispatcher.base.withLayer Foreign.layer

theorem Standard.simulates (standard : a.Standard) {K : Coupling σ σ}
    (hosts : K.Hosts a.setting.host a.setting.host) (node : Node) :
    K.Simulates (a.dispatcher.dispatch a.setting node)
      (a.dispatcher.dispatch a.setting node) Eq := by
  rcases standard with base | layered
  · rw [base]
    exact .dispatch_base ⟨rfl, rfl⟩ node
  · rw [layered]
    exact .dispatch_layered ⟨rfl, rfl⟩ hosts node

/-- The block of a point can be run on a state and delivers only what the points that it goes to
    absorb, under the same context. -/
def StableAt (a : Analysis σ) (states : FinMap ProgramPoint State) (point : ProgramPoint)
    (entry : State) (world : World σ) : Prop :=
  ∃ pushes world', (a.deliveries point entry).run.run world = (.ok pushes, world') ∧
    ∀ push ∈ pushes, push.point.context = point.context ∧
      ∃ target, states.get? push.point = some target ∧ target.Absorbs push.state

/-- A push of a state that is covered where it goes to. -/
def CoveredIn (states : FinMap ProgramPoint State) (push : Push) : Prop :=
  ∃ target, states.get? push.point = some target ∧ target.Covers push.state

theorem coveredIn_of_receives {entries : Entries} {push : Push} (received : entries.Receives push) :
    CoveredIn entries.states push := by
  obtain ⟨target, found, covers, _⟩ := received
  exact ⟨target, found, covers⟩

/-- Coupled pushes are covered alike. -/
theorem coveredIn_iff {τ : Type} {K : Coupling σ τ} {states : FinMap ProgramPoint State}
    {p q : Push} (pair : K.Pushes p q) : CoveredIn states q ↔ CoveredIn states p := by
  have shapes : q.state.shapes = p.state.shapes := by
    unfold State.shapes
    rw [pair.states.object?]
  unfold CoveredIn
  rw [pair.point]
  constructor
  · rintro ⟨target, found, covers⟩
    exact ⟨target, found, covers.congr pair.states.registers shapes⟩
  · rintro ⟨target, found, covers⟩
    exact ⟨target, found, covers.congr pair.states.registers.symm shapes.symm⟩

/-- What is coupled with covered pushes is absorbed. -/
theorem absorbed_of_coupled {τ : Type} {K : Coupling σ τ} {states : FinMap ProgramPoint State}
    {ps qs : List Push} (coupled : List.Forall₂ K.Pushes ps qs)
    (covered : ∀ push ∈ ps, CoveredIn states push) :
    ∀ push ∈ qs, push.point.context = K.first.context ∧
      ∃ target, states.get? push.point = some target ∧ target.Absorbs push.state := by
  intro push member
  obtain ⟨other, listed, pair⟩ := Coupling.Pushes.partner _ coupled member
  obtain ⟨target, found, covers⟩ := (coveredIn_iff pair).mpr (covered other listed)
  exact ⟨by rw [pair.point, pair.context], target, found, covers.absorbs⟩

/-- A point that has settled is stable in every world that is related to that of its last visit. -/
theorem Settled.stableAt {memory : σ → σ → Prop} {entries : Entries} {visit : Visit σ}
    {e : State} (settled : a.Settled entries visit e)
    (simulates : ∀ node, (Coupling.mk visit.entry e memory).Simulates
      (a.dispatcher.dispatch a.setting node) (a.dispatcher.dispatch a.setting node) Eq)
    (world : World σ) (related : memory visit.world.host world.host) :
    a.StableAt entries.states visit.point e world := by
  obtain ⟨older, w', deliveredThen, received⟩ := settled.received
  obtain ⟨pushes, world', delivered, _, coupled⟩ :=
    deliveries_simulated (K := ⟨visit.entry, e, memory⟩) ⟨rfl, rfl⟩ simulates
      (.start settled.formed settled.values) settled.context related deliveredThen
  refine ⟨pushes, world', delivered, ?_⟩
  rw [← settled.context]
  exact absorbed_of_coupled coupled fun push member =>
    coveredIn_of_receives (received push member).2

/-- A sound fixed point of an analysis whose host has fixed answers is stable in every world. The
    states at the start of the program body and of every other function are absorbed as well. -/
theorem fixedPoint_stable (standard : a.Standard) (historyFree : a.setting.host.HistoryFree)
    (built : a.setting.host.AnswersBuilt) {w w' : World σ} {result : FixedPoint}
    (done : a.fixedPoint.run.run w = (.ok result, w')) (sound : result.isSound = true) :
    (∀ point entry, result.states.get? point = some entry → ∀ world,
      a.StableAt result.states point entry world) ∧
    (∀ main, a.setting.program.main = .ok main → ∀ t, ∃ target,
      result.states.get? (a.bodyStart main t).point = some target ∧
      target.Absorbs (a.bodyStart main t).state) ∧
    (∀ f ∈ a.setting.program.functions, f.isMain = false → ∀ t, ∃ target,
      result.states.get? (a.functionStart f t).point = some target ∧
      target.Absorbs (a.functionStart f t).state) := by
  have simulates : ∀ s t node, (Host.free s t : Coupling σ σ).Simulates
      (a.dispatcher.dispatch a.setting node) (a.dispatcher.dispatch a.setting node) Eq :=
    fun s t => standard.simulates (Host.hosts_of_historyFree historyFree built s t)
  have regular : a.Regular fun _ => True :=
    regular_of_simulates simulates (fun _ _ => trivial) fun _ _ _ => trivial
  obtain ⟨last, run, states⟩ := runs_of_fixedPoint done sound
  obtain ⟨settles, body, functions, _⟩ := run.outcome regular trivial
  rw [← states]
  refine ⟨?_, ?_, ?_⟩
  · intro point entry found world
    obtain ⟨visit, latest, settled, _⟩ := settles point entry found
    obtain rfl : visit.point = point := (Visit.mem_of_last? latest).2
    exact settled.stableAt (simulates visit.entry entry) world trivial
  · intro main foundMain t
    obtain ⟨target, found, covers, _⟩ := body main foundMain t
    exact ⟨target, found, covers.absorbs⟩
  · intro f member named t
    obtain ⟨target, found, covers, _⟩ := functions f member named t
    exact ⟨target, found, covers.absorbs⟩

end Analysis

/-! ### A run -/

/-- A program put together from named functions with their parameters, further blocks of the body,
    nodes with their blocks, and edges. Steps that fail are left out. -/
def FlowGraph.sketch (functions : List (String × List String)) (blocks : Nat)
    (nodes : List (Nat × Operation)) (edges : List (Nat × Nat)) : FlowGraph :=
  let fg := functions.foldl (fun fg f => fg.pushFunction (some f.1) f.2 []) .initial
  let fg := (List.range blocks).foldl
    (fun fg _ => ((fg.newBlock 0).map Prod.snd).toOption.getD fg) fg
  let fg := nodes.foldl (fun fg n => ((fg.addNode n.1 n.2).map Prod.snd).toOption.getD fg) fg
  edges.foldl (fun fg e => (fg.addEdge e.1 e.2).toOption.getD fg) fg

/-- A host that gives one value for every member. -/
def Host.uniform (v : Value) : Host Unit where
  propertyValue := fun _ _ => return v
  functionValue := fun _ _ => return v
  call := fun _ _ _ => return v
  setProperty := fun _ _ _ => return ()
  construct := fun site className => return .object ⟨site, .foreignObject, some className⟩
  resume := fun _ => return ()

theorem Host.uniform_historyFree (v : Value) : (Host.uniform v).HistoryFree :=
  ⟨fun _ _ _ _ => rfl, fun _ _ _ _ => rfl, fun _ _ _ _ _ => rfl, fun _ _ _ _ _ => rfl,
    fun _ _ _ _ => rfl⟩

theorem Host.uniform_answersBuilt {v : Value} (built : v.Built) :
    (Host.uniform v).AnswersBuilt where
  propertyValue := by
    intro _ _ _ w answered
    cases answered
    exact built
  functionValue := by
    intro _ _ _ w answered
    cases answered
    exact built
  call := by
    intro _ _ _ _ w answered
    cases answered
    exact built
  construct := by
    intro _ _ _ w answered
    cases answered
    exact .objects _

namespace Analysis

/-- A loop that reads a property of an instance of a host class, and a function that is entered from
    outside. -/
def propertyLoop : Analysis Unit where
  setting := {
    host := .uniform .anyNumber
    program := .sketch [("f", ["x"])] 3
      [(0, .readVariable 0 "Java"), (0, .constant 1 (.string "C")),
        (0, .methodCall (some 2) 0 "type" [1]), (1, .readVariable 0 "x"), (2, .construct 3 2 []),
        (3, .readProperty (some 4) 3 (.fixed "p")), (3, .writeVariable "y" 4),
        (4, .constant 4 .null)]
      [(0, 2), (2, 3), (3, 4), (4, 3)]
    options := {} }
  dispatcher := Dispatcher.base.withLayer Foreign.layer

/-- The loop has a sound fixed point with five points, and it is stable. -/
theorem propertyLoop_stable :
    ∃ result w', propertyLoop.fixedPoint.run.run ⟨.initial, (), []⟩ = (.ok result, w') ∧
      result.isSound = true ∧ result.states.size = 5 ∧
      ∀ point entry, result.states.get? point = some entry → ∀ world,
        propertyLoop.StableAt result.states point entry world := by
  have settled : (match (propertyLoop.fixedPoint.run.run ⟨.initial, (), []⟩).1 with
      | .ok result => result.isSound && result.states.size == 5
      | .error _ => false) = true := by
    decide +kernel
  rcases ran : propertyLoop.fixedPoint.run.run ⟨.initial, (), []⟩ with ⟨e | result, w'⟩
  · rw [ran] at settled
    cases settled
  · rw [ran] at settled
    simp only [Bool.and_eq_true, beq_iff_eq] at settled
    have standard : propertyLoop.Standard := .inr rfl
    have stable := fixedPoint_stable standard (Host.uniform_historyFree .anyNumber)
      (Host.uniform_answersBuilt .anyNumber) ran settled.1
    exact ⟨result, w', rfl, settled.1, settled.2, stable.1⟩

end Analysis

end ScriptHeap
