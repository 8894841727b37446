import ScriptHeap.Proofs.Transfer.Step

/-!
# How computations fail

A computation is safe if it keeps an invariant of its state, has results with a property, and fails
only with errors that are allowed (`Fallible.Safe`). There is one law for each way of putting
computations together. Of a transfer what matters is often no more than what holds of its state and
of the states that it pushes (`Machine.Holds`).

The pure steps behind the ordinary rules fail only because something is missing that the program
refers to (`FailsOnly.step`). So a run by the ordinary rules keeps what the steps keep, and leaves
the state to the driver or stops where something is missing (`Dispatcher.safe_transferNodes_base`).
-/

namespace ScriptHeap

/-! ### Computations that keep an invariant -/

namespace Fallible

variable {ω α β : Type}

/-- From a state that satisfies an invariant the computation ends in one that does. Its result has
    a property, or its error is one of those allowed. -/
def Safe (I : ω → Prop) (E : Error → Prop) (x : ExceptT Error (StateM ω) α) (P : α → Prop) : Prop :=
  ∀ s, I s → I (x.run.run s).2 ∧
    (∀ a, (x.run.run s).1 = .ok a → P a) ∧ ∀ e, (x.run.run s).1 = .error e → E e

namespace Safe

variable {I : ω → Prop} {E : Error → Prop} {P : α → Prop} {Q : β → Prop}

theorem pure {a : α} (holds : P a) : Safe I E (Pure.pure a) P := by
  intro s kept
  refine ⟨kept, ?_, ?_⟩
  · rintro _ ⟨⟩
    exact holds
  · rintro _ ⟨⟩

theorem throw {e : Error} (allowed : E e) : Safe I E (MonadExcept.throw e) P := by
  intro s kept
  refine ⟨kept, ?_, ?_⟩
  · rintro _ ⟨⟩
  · rintro _ ⟨⟩
    exact allowed

theorem bind {x : ExceptT Error (StateM ω) α} {f : α → ExceptT Error (StateM ω) β}
    (first : Safe I E x P) (rest : ∀ a, P a → Safe I E (f a) Q) : Safe I E (x >>= f) Q := by
  intro s kept
  obtain ⟨kept', result, error⟩ := first s kept
  rcases ran : x.run.run s with ⟨e | a, s'⟩
  · rw [run_bind_of_error f ran]
    rw [ran] at kept' error
    refine ⟨kept', ?_, fun e' same => error e' (congrArg Except.error (Except.error.inj same))⟩
    rintro _ ⟨⟩
  · rw [run_bind_of_ok f ran]
    rw [ran] at kept' result
    exact rest a (result a rfl) s' kept'

theorem mono {x : ExceptT Error (StateM ω) α} {P' : α → Prop} {E' : Error → Prop}
    (safe : Safe I E x P) (weaker : ∀ a, P a → P' a) (allowed : ∀ e, E e → E' e) :
    Safe I E' x P' := by
  intro _ kept
  obtain ⟨kept', result, error⟩ := safe _ kept
  exact ⟨kept', fun a same => weaker a (result a same), fun e same => allowed e (error e same)⟩

theorem get : Safe I E (MonadState.get : ExceptT Error (StateM ω) ω) I := by
  intro s kept
  refine ⟨kept, ?_, ?_⟩
  · rintro _ ⟨⟩
    exact kept
  · rintro _ ⟨⟩

theorem modify {f : ω → ω} (keeps : ∀ s, I s → I (f s)) :
    Safe I E (modify f : ExceptT Error (StateM ω) PUnit) fun _ => True := by
  intro s kept
  refine ⟨keeps s kept, fun _ _ => trivial, ?_⟩
  rintro _ ⟨⟩

theorem modifyGet {f : ω → α × ω} (keeps : ∀ s, I s → I (f s).2) (holds : ∀ s, I s → P (f s).1) :
    Safe I E (modifyGet f : ExceptT Error (StateM ω) α) P := by
  intro s kept
  refine ⟨keeps s kept, ?_, ?_⟩
  · rintro _ ⟨⟩
    exact holds s kept
  · rintro _ ⟨⟩

/-- Taking the result of a pure step. -/
theorem ofResult {r : Except Error α} (holds : ∀ a, r = .ok a → P a)
    (allowed : ∀ e, r = .error e → E e) :
    Safe I E (ExceptT.mk (Pure.pure r) : ExceptT Error (StateM ω) α) P :=
  fun _ kept => ⟨kept, holds, allowed⟩

theorem ite {c : Prop} [Decidable c] {x y : ExceptT Error (StateM ω) α} (first : Safe I E x P)
    (second : Safe I E y P) : Safe I E (if c then x else y) P := by
  split
  · exact first
  · exact second

theorem foldlM {ι : Type} {f : α → ι → ExceptT Error (StateM ω) α} (items : List ι)
    (step : ∀ item ∈ items, ∀ a, P a → Safe I E (f a item) P) {a : α} (start : P a) :
    Safe I E (items.foldlM f a) P := by
  induction items generalizing a with
  | nil => exact pure start
  | cons item rest ih =>
      rw [List.foldlM_cons]
      exact bind (step item List.mem_cons_self a start) fun b holds =>
        ih (fun other member => step other (List.mem_cons_of_mem _ member)) holds

/-- A fold follows a pure one, if every step of it does. -/
theorem foldlM_foldl {ι : Type} {R : α → β → Prop} {f : α → ι → ExceptT Error (StateM ω) α}
    {g : β → ι → β} (step : ∀ item a b, R a b → Safe I E (f a item) fun a' => R a' (g b item))
    (items : List ι) {a : α} {b : β} (start : R a b) :
    Safe I E (items.foldlM f a) fun a' => R a' (items.foldl g b) := by
  induction items generalizing a b with
  | nil => exact pure start
  | cons item rest ih =>
      rw [List.foldlM_cons]
      exact bind (step item a b start) fun _ related => ih related

theorem forM {ι : Type} {f : ι → ExceptT Error (StateM ω) PUnit} (items : List ι)
    (step : ∀ item ∈ items, Safe I E (f item) fun _ => True) :
    Safe I E (items.forM f) fun _ => True := by
  induction items with
  | nil => exact pure trivial
  | cons item rest ih =>
      exact bind (step item List.mem_cons_self) fun _ _ =>
        ih fun other member => step other (List.mem_cons_of_mem _ member)

theorem mapM {ι : Type} {f : ι → ExceptT Error (StateM ω) α} (items : List ι)
    (step : ∀ item ∈ items, Safe I E (f item) P) :
    Safe I E (items.mapM f) fun results => ∀ a ∈ results, P a := by
  induction items with
  | nil => exact pure nofun
  | cons item rest ih =>
      rw [List.mapM_cons]
      have others := ih fun other member => step other (List.mem_cons_of_mem _ member)
      refine bind (step item List.mem_cons_self) fun a holds => bind others fun results all => ?_
      exact pure (List.forall_mem_cons.mpr ⟨holds, all⟩)

/-- Reading changes nothing. -/
theorem read {σ : Type} {I : Machine σ → Prop} {x : Transfer σ α}
    {r : Machine σ → Except Error α} (reads : ∀ m, x.Reads m (r m))
    (holds : ∀ m a, I m → r m = .ok a → P a) (allowed : ∀ m e, I m → r m = .error e → E e) :
    Safe I E x P := by
  intro m kept
  rw [show x.run.run m = (r m, m) from reads m]
  exact ⟨kept, fun a => holds m a kept, fun e => allowed m e kept⟩

theorem of_reads {σ : Type} {I : Machine σ → Prop} {x : Transfer σ α}
    {r : Machine σ → Except Error α} (reads : ∀ m, x.Reads m (r m)) :
    Safe I (fun _ => True) x fun _ => True :=
  read reads (fun _ _ _ _ => trivial) fun _ _ _ _ => trivial

/-- A failure that is taken up as a result is still one of those allowed. -/
theorem attempt {σ : Type} {I : Machine σ → Prop} {x : Transfer σ α} (safe : Safe I E x P) :
    Safe I E (Transfer.attempt x) fun outcome =>
      (∀ a, outcome = .ok a → P a) ∧ ∀ e, outcome = .error e → E e := by
  intro m kept
  obtain ⟨kept', result, error⟩ := safe m kept
  refine ⟨kept', ?_, ?_⟩
  · rintro _ ⟨⟩
    exact ⟨result, error⟩
  · rintro _ ⟨⟩

end Safe

end Fallible

/-- A transfer that follows a pure computation keeps an invariant that holds of the machines it may
    end in. Where the computation fails, the transfer leaves the machine alone. -/
theorem Transfer.Yields.keeps {σ α β : Type} {I : Machine σ → Prop} {E : Error → Prop}
    {P : α → Prop} {m : Machine σ} {x : Transfer σ α} {r : Except Error β}
    {fits : β → α → Machine σ → Prop} (yields : x.Yields m r fits) (kept : I m)
    (after : ∀ b a m', r = .ok b → fits b a m' → I m' ∧ P a) (allowed : ∀ e, r = .error e → E e) :
    I (x.run.run m).2 ∧ (∀ a, (x.run.run m).1 = .ok a → P a) ∧
      ∀ e, (x.run.run m).1 = .error e → E e := by
  unfold Transfer.Yields at yields
  cases r with
  | error e =>
      rw [show x.run.run m = (.error e, m) from yields]
      refine ⟨kept, ?_, ?_⟩
      · rintro _ ⟨⟩
      · rintro _ ⟨⟩
        exact allowed e rfl
  | ok b =>
      obtain ⟨a, m', ran, fit⟩ := yields
      obtain ⟨kept', holds⟩ := after b a m' rfl fit
      rw [ran]
      refine ⟨kept', ?_, ?_⟩
      · rintro _ ⟨⟩
        exact holds
      · rintro _ ⟨⟩

/-! ### The states of a machine -/

/-- The state has a property, and the states that were pushed have another. -/
structure Machine.Holds {σ : Type} (I J : State → Prop) (m : Machine σ) : Prop where
  state : I m.state
  pushes : ∀ push ∈ m.pushes, J push.state

/-! ### What is missing -/

/-- The step fails only with errors of a sort. -/
def FailsOnly {α : Type} (E : Error → Prop) (r : Except Error α) : Prop := ∀ e, r = .error e → E e

/-- The error says that something is missing which the program refers to. -/
inductive Error.Missing : Error → Prop where
  | register (r : Register) : Missing (.analysis (.undefinedRegister r))
  | function (index : Nat) : Missing (.functionNotFound index)
  | block (index : Nat) : Missing (.blockNotFound index)
  | vertex (index : Nat) : Missing (.vertexNotFound index)

/-- An error that an analysis stops at is reported as it is. -/
theorem Error.locate_of_isFatal {e : Error} (fatal : e.isFatal = true) (run : Nat)
    (point : ProgramPoint) : e.locate run point = e := by
  cases e with
  | host => cases fatal
  | _ => rfl

/-- An analysis stops where something is missing. -/
theorem Error.Missing.isFatal {e : Error} (missing : e.Missing) : e.isFatal = true := by
  cases missing <;> rfl

namespace FailsOnly

variable {α β : Type} {E E' : Error → Prop}

theorem ok (a : α) : FailsOnly E (.ok a) := by
  rintro _ ⟨⟩

theorem error {e : Error} (allowed : E e) : FailsOnly E (.error e : Except Error α) := by
  rintro _ ⟨⟩
  exact allowed

theorem bind {r : Except Error α} {f : α → Except Error β} (first : FailsOnly E r)
    (rest : ∀ a, FailsOnly E (f a)) : FailsOnly E (r >>= f) := by
  cases r with
  | error e => exact fun e' same => first e' (congrArg Except.error (Except.error.inj same))
  | ok a => exact rest a

theorem forM {ι : Type} {f : ι → Except Error PUnit} (items : List ι)
    (step : ∀ item, FailsOnly E (f item)) : FailsOnly E (items.forM f) := by
  induction items with
  | nil => exact ok _
  | cons item rest ih => exact bind (step item) fun _ => ih

theorem mono {r : Except Error α} (only : FailsOnly E r) (weaker : ∀ e, E e → E' e) :
    FailsOnly E' r :=
  fun e failed => weaker e (only e failed)

theorem readRegister (c : Contents) (r : Register) :
    FailsOnly Error.Missing (c.readRegister r) := by
  unfold Contents.readRegister
  cases c.registers r with
  | none => exact error (.register r)
  | some v => exact ok v

theorem readRegisters (c : Contents) (rs : List Register) :
    FailsOnly Error.Missing (rs.mapM c.readRegister) := by
  induction rs with
  | nil => exact ok _
  | cons r rest ih =>
      rw [List.mapM_cons]
      exact bind (readRegister c r) fun _ => bind ih fun _ => ok _

theorem function (program : FlowGraph) (index : Nat) :
    FailsOnly Error.Missing (program.function index) := by
  unfold FlowGraph.function
  cases program.functions[index]? with
  | none => exact error (.function index)
  | some f => exact ok f

theorem block (program : FlowGraph) (index : Nat) :
    FailsOnly Error.Missing (program.block index) := by
  unfold FlowGraph.block
  cases program.graph.vertices.get? index with
  | none => exact error (.block index)
  | some b => exact ok b

theorem successors (program : FlowGraph) (index : Nat) :
    FailsOnly Error.Missing (program.successors index) := by
  unfold FlowGraph.successors
  cases program.graph.successors.get? index with
  | none => exact error (.block index)
  | some set => exact ok set.toList

theorem reversePostOrder (program : FlowGraph) (root : Nat) :
    FailsOnly Error.Missing (program.graph.reversePostOrder root) := by
  unfold Digraph.reversePostOrder
  split
  · exact ok _
  · exact error (.vertex root)

theorem key? (c : Contents) (property : PropertyName) :
    FailsOnly Error.Missing (c.key? property) := by
  cases property with
  | fixed name => exact ok _
  | dynamic r => exact bind (readRegister c r) fun _ => ok _

/-- An ordinary rule fails only because a register or a function is missing. -/
theorem step (program : FlowGraph) (node : Node) (c : Contents) :
    FailsOnly Error.Missing (c.step program node) := by
  obtain ⟨index, block, operation⟩ := node
  cases operation with
  | constant | newObject | foreignMarker | nop => exact ok _
  | readVariable => exact bind (function program _) fun _ => ok _
  | writeVariable name r =>
      exact bind (readRegister c r) fun _ => bind (function program _) fun _ => ok _
  | readProperty result base property =>
      exact bind (readRegister c base) fun _ => bind (key? c property) fun _ => ok _
  | writeProperty base property r =>
      exact bind (readRegister c base) fun _ => bind (readRegister c r) fun _ =>
        bind (key? c property) fun _ => ok _
  | call operands => exact bind (readRegisters c operands.arguments) fun _ => ok _
  | binaryOperator result op lhs rhs =>
      exact bind (readRegister c lhs) fun _ => bind (readRegister c rhs) fun _ => ok _

end FailsOnly

/-! ### The ordinary rules -/

variable {σ : Type} {I : Machine σ → Prop} {setting : Setting σ}

/-- An ordinary rule keeps what its step keeps. It leaves the state to the driver, or something is
    missing. -/
theorem Ordinary.safe_rule {node : Node}
    (keeps : ∀ m m' c, I m → m.state.contents.step setting.program node = .ok c →
      m.After setting.program node c m' → I m') :
    Fallible.Safe I Error.Missing (rule node.kind setting node) (· = .pending) := by
  intro m kept
  apply (run_rule setting node m).keeps kept
  · rintro c handover m' stepped ⟨pending, after⟩
    exact ⟨keeps m m' c kept stepped after, pending⟩
  · exact FailsOnly.step _ node _

/-- So does a run of nodes by the ordinary rules. -/
theorem Dispatcher.safe_transferNodes_base
    (keeps : ∀ node m m' c, I m → m.state.contents.step setting.program node = .ok c →
      m.After setting.program node c m' → I m') (block : Nat) (nodes : List Node) :
    Fallible.Safe I Error.Missing (base.transferNodes setting block nodes) (· = .pending) := by
  induction nodes with
  | nil => exact .pure rfl
  | cons node rest ih =>
      refine .bind (P := (· = .pending)) ?_ ?_
      · rw [dispatch_base]
        exact Ordinary.safe_rule (keeps node)
      · rintro _ rfl
        exact ih

end ScriptHeap
