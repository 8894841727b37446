import ScriptHeap.Proofs.Transfer.Step

/-!
# Computations in lockstep

Two outcomes concur if both are results that are related, or both are the same error
(`Fallible.Concur`). Two computations run in lockstep if, from related states, they end in related
states with outcomes that concur (`Fallible.Lockstep`). Other than a simulation, this speaks of
failures as well, and it is symmetric. There is one law for each way of putting computations
together.
-/

namespace ScriptHeap.Fallible

variable {α β γ δ ω : Type}

/-- Both outcomes are results that are related, or both are one error. -/
inductive Concur (R : α → β → Prop) : Except Error α → Except Error β → Prop where
  | ok {a : α} {b : β} (related : R a b) : Concur R (.ok a) (.ok b)
  | error (e : Error) : Concur R (.error e) (.error e)

namespace Concur

variable {R : α → β → Prop} {S : γ → δ → Prop} {r : Except Error α} {r' : Except Error β}

theorem refl {R : α → α → Prop} (reflexive : ∀ a, R a a) (r : Except Error α) : Concur R r r := by
  cases r with
  | error e => exact .error e
  | ok a => exact .ok (reflexive a)

/-- Steps that concur may be followed by steps that do. -/
theorem bind {f : α → Except Error γ} {g : β → Except Error δ} (first : Concur R r r')
    (rest : ∀ a b, R a b → Concur S (f a) (g b)) : Concur S (r >>= f) (r' >>= g) := by
  cases first with
  | error e => exact .error e
  | ok related => exact rest _ _ related

theorem map {f : α → γ} {g : β → δ} (first : Concur R r r')
    (rest : ∀ a b, R a b → S (f a) (g b)) : Concur S (r.map f) (r'.map g) := by
  cases first with
  | error e => exact .error e
  | ok related => exact .ok (rest _ _ related)

theorem mapLeft {f : α → γ} {S : γ → β → Prop} (first : Concur R r r')
    (rest : ∀ a b, R a b → S (f a) b) : Concur S (r.map f) r' := by
  cases first with
  | error e => exact .error e
  | ok related => exact .ok (rest _ _ related)

theorem mono {R' : α → β → Prop} (concur : Concur R r r') (weaker : ∀ a b, R a b → R' a b) :
    Concur R' r r' := by
  cases concur with
  | error e => exact .error e
  | ok related => exact .ok (weaker _ _ related)

/-- Steps for each of some items concur if the step for one does. -/
theorem foldlM {ι : Type} {f : α → ι → Except Error α} {g : β → ι → Except Error β}
    (items : List ι) (step : ∀ item a b, R a b → Concur R (f a item) (g b item)) {a : α} {b : β}
    (start : R a b) : Concur R (items.foldlM f a) (items.foldlM g b) := by
  induction items generalizing a b with
  | nil => exact .ok start
  | cons item rest ih =>
      rw [List.foldlM_cons, List.foldlM_cons]
      exact bind (step item a b start) fun _ _ related => ih related

/-- Steps that concur on equal results are equal. -/
theorem eq {r r' : Except Error α} (concur : Concur Eq r r') : r = r' := by
  cases concur with
  | error e => rfl
  | ok same => exact congrArg Except.ok same

end Concur

/-- From related states the computations end in related states, with outcomes that concur. -/
def Lockstep (D : ω → ω → Prop) (x : ExceptT Error (StateM ω) α) (y : ExceptT Error (StateM ω) β)
    (R : α → β → Prop) : Prop :=
  ∀ m n, D m n → D (x.run.run m).2 (y.run.run n).2 ∧ Concur R (x.run.run m).1 (y.run.run n).1

namespace Lockstep

variable {D : ω → ω → Prop} {R : α → β → Prop} {S : γ → δ → Prop}

theorem pure {a : α} {b : β} (related : R a b) : Lockstep D (Pure.pure a) (Pure.pure b) R :=
  fun _ _ kept => ⟨kept, .ok related⟩

theorem throw (e : Error) : Lockstep D (MonadExcept.throw e) (MonadExcept.throw e) R :=
  fun _ _ kept => ⟨kept, .error e⟩

theorem bind {x : ExceptT Error (StateM ω) α} {y : ExceptT Error (StateM ω) β}
    {f : α → ExceptT Error (StateM ω) γ} {g : β → ExceptT Error (StateM ω) δ}
    (first : Lockstep D x y R) (rest : ∀ a b, R a b → Lockstep D (f a) (g b) S) :
    Lockstep D (x >>= f) (y >>= g) S := by
  intro m n kept
  obtain ⟨kept', concur⟩ := first m n kept
  rcases ran : x.run.run m with ⟨r, m'⟩
  rcases ranOther : y.run.run n with ⟨r', n'⟩
  rw [ran, ranOther] at kept' concur
  cases concur with
  | error e =>
      rw [run_bind_of_error f ran, run_bind_of_error g ranOther]
      exact ⟨kept', .error e⟩
  | ok related =>
      rw [run_bind_of_ok f ran, run_bind_of_ok g ranOther]
      exact rest _ _ related m' n' kept'

/-- Computations with equal results, and what follows them. -/
theorem andThen {x y : ExceptT Error (StateM ω) α} {f : α → ExceptT Error (StateM ω) γ}
    {g : α → ExceptT Error (StateM ω) δ} (first : Lockstep D x y Eq)
    (rest : ∀ a, Lockstep D (f a) (g a) S) : Lockstep D (x >>= f) (y >>= g) S := by
  refine bind first fun a b same => ?_
  subst same
  exact rest a

theorem get : Lockstep D (MonadState.get : ExceptT Error (StateM ω) ω) MonadState.get D :=
  fun _ _ kept => ⟨kept, .ok kept⟩

theorem modify {f g : ω → ω} (keeps : ∀ m n, D m n → D (f m) (g n)) :
    Lockstep D (modify f : ExceptT Error (StateM ω) PUnit) (modify g) Eq :=
  fun m n kept => ⟨keeps m n kept, .ok rfl⟩

/-- Changes with a result are in step if they keep the states and the results related. -/
theorem modifyGet {f : ω → α × ω} {g : ω → β × ω}
    (keeps : ∀ m n, D m n → R (f m).1 (g n).1 ∧ D (f m).2 (g n).2) :
    Lockstep D (modifyGet f : ExceptT Error (StateM ω) α) (modifyGet g) R :=
  fun m n kept => ⟨(keeps m n kept).2, .ok (keeps m n kept).1⟩

/-- Taking the result of a pure step. -/
theorem ofResult {r : Except Error α} {r' : Except Error β} (concur : Concur R r r') :
    Lockstep D (ExceptT.mk (Pure.pure r) : ExceptT Error (StateM ω) α)
      (ExceptT.mk (Pure.pure r') : ExceptT Error (StateM ω) β) R :=
  fun _ _ kept => ⟨kept, concur⟩

theorem ite {c : Prop} [Decidable c] {x x' : ExceptT Error (StateM ω) α}
    {y y' : ExceptT Error (StateM ω) β} (yes : Lockstep D x y R) (no : Lockstep D x' y' R) :
    Lockstep D (if c then x else x') (if c then y else y') R := by
  split
  · exact yes
  · exact no

theorem foldlM {ι : Type} {f : α → ι → ExceptT Error (StateM ω) α}
    {g : β → ι → ExceptT Error (StateM ω) β} (items : List ι)
    (step : ∀ item a b, R a b → Lockstep D (f a item) (g b item) R) {a : α} {b : β}
    (start : R a b) : Lockstep D (items.foldlM f a) (items.foldlM g b) R := by
  induction items generalizing a b with
  | nil => exact pure start
  | cons item rest ih =>
      rw [List.foldlM_cons, List.foldlM_cons]
      exact bind (step item a b start) fun _ _ related => ih related

theorem forM {ι : Type} {f g : ι → ExceptT Error (StateM ω) PUnit} (items : List ι)
    (step : ∀ item, Lockstep D (f item) (g item) Eq) :
    Lockstep D (items.forM f) (items.forM g) Eq := by
  induction items with
  | nil => exact pure rfl
  | cons item rest ih => exact bind (step item) fun _ _ _ => ih

theorem mapM {ι : Type} {f g : ι → ExceptT Error (StateM ω) α} (items : List ι)
    (step : ∀ item, Lockstep D (f item) (g item) Eq) :
    Lockstep D (items.mapM f) (items.mapM g) Eq := by
  induction items with
  | nil => exact pure rfl
  | cons item rest ih =>
      rw [List.mapM_cons, List.mapM_cons]
      refine bind (step item) fun a _ same => bind ih fun as _ others => pure ?_
      rw [same, others]

end Lockstep

end ScriptHeap.Fallible
