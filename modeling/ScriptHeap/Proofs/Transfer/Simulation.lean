import Mathlib.Data.List.Forall2
import ScriptHeap.Proofs.State.Agreement
import ScriptHeap.Proofs.Value.Interned

/-!
# Simulation of transfers

Two machines are coupled when their states agree, the memories of their hosts are related, and they
have pushed states that agree. Their interners and their logs may differ. One transfer simulates
another when, from coupled machines, it succeeds wherever the other does and leaves the machines
coupled.

There is one lemma for each way of putting transfers together (`pure`, `bind`, `foldlM`) and one for
each primitive of the machine; the rules are then simulated by following their text. What a host has
to do is said by `Coupling.Hosts`.
-/

namespace ScriptHeap

/-! ### Computations that may fail -/

namespace Fallible

variable {ω α β : Type}

/-- A computation that is followed by another fails where the first one does. -/
theorem run_bind (x : ExceptT Error (StateM ω) α) (f : α → ExceptT Error (StateM ω) β) (s : ω) :
    (x >>= f).run.run s =
      match x.run.run s with
      | (.ok a, s') => (f a).run.run s'
      | (.error e, s') => (.error e, s') := by
  show (ExceptT.bindCont f (x.run.run s).1).run (x.run.run s).2 = _
  rcases x.run.run s with ⟨e | a, s'⟩ <;> rfl

/-- A sequence succeeds only where both of its parts do. -/
theorem of_run_bind {x : ExceptT Error (StateM ω) α} {f : α → ExceptT Error (StateM ω) β}
    {s s'' : ω} {b : β} (done : (x >>= f).run.run s = (.ok b, s'')) :
    ∃ a s', x.run.run s = (.ok a, s') ∧ (f a).run.run s' = (.ok b, s'') := by
  rw [run_bind] at done
  rcases ran : x.run.run s with ⟨e | a, s'⟩
  · rw [ran] at done
    cases done
  · exact ⟨a, s', rfl, by simpa [ran] using done⟩

/-- The run of a sequence whose first part succeeds. -/
theorem run_bind_of_ok {x : ExceptT Error (StateM ω) α} (f : α → ExceptT Error (StateM ω) β)
    {s s' : ω} {a : α} (done : x.run.run s = (.ok a, s')) :
    (x >>= f).run.run s = (f a).run.run s' := by
  rw [run_bind, done]

/-- The second computation succeeds where the first does, with a related result, and a relation
    between what they run on is kept. -/
def Follows {ω ψ α β : Type} (keeps : ω → ψ → Prop) (x : ExceptT Error (StateM ω) α)
    (y : ExceptT Error (StateM ψ) β) (related : α → β → Prop) : Prop :=
  ∀ m n a m', keeps m n → x.run.run m = (.ok a, m') →
    ∃ b n', y.run.run n = (.ok b, n') ∧ keeps m' n' ∧ related a b

namespace Follows

variable {ω ψ α β γ δ : Type} {keeps : ω → ψ → Prop}

theorem pure {R : α → β → Prop} {a : α} {b : β} (holds : R a b) :
    Follows keeps (Pure.pure a) (Pure.pure b) R := by
  intro m n a' m' kept done
  cases done
  exact ⟨b, n, rfl, kept, holds⟩

theorem bind {R : α → β → Prop} {S : γ → δ → Prop} {x : ExceptT Error (StateM ω) α}
    {y : ExceptT Error (StateM ψ) β} {f : α → ExceptT Error (StateM ω) γ}
    {g : β → ExceptT Error (StateM ψ) δ} (first : Follows keeps x y R)
    (rest : ∀ a b, R a b → Follows keeps (f a) (g b) S) :
    Follows keeps (x >>= f) (y >>= g) S := by
  intro m n c m'' kept done
  obtain ⟨a, m', ran, ranRest⟩ := of_run_bind done
  obtain ⟨b, n', ranOther, kept', holds⟩ := first m n a m' kept ran
  obtain ⟨d, n'', ranRestOther, kept'', holds'⟩ := rest a b holds m' n' c m'' kept' ranRest
  refine ⟨d, n'', ?_, kept'', holds'⟩
  rw [run_bind_of_ok g ranOther]
  exact ranRestOther

/-- Anything follows a failure. -/
theorem throw {R : α → β → Prop} (e : Error) (y : ExceptT Error (StateM ψ) β) :
    Follows keeps (MonadExcept.throw e : ExceptT Error (StateM ω) α) y R := by
  intro m n a m' _ done
  cases done

theorem foldlM {ι : Type} {R : α → β → Prop} {f : α → ι → ExceptT Error (StateM ω) α}
    {g : β → ι → ExceptT Error (StateM ψ) β} (items : List ι)
    (step : ∀ item ∈ items, ∀ a b, R a b → Follows keeps (f a item) (g b item) R)
    {a : α} {b : β} (holds : R a b) :
    Follows keeps (items.foldlM f a) (items.foldlM g b) R := by
  induction items generalizing a b with
  | nil => exact pure holds
  | cons item rest ih =>
      rw [List.foldlM_cons, List.foldlM_cons]
      refine bind (step item List.mem_cons_self a b holds) ?_
      intro a' b' holds'
      exact ih (fun other member => step other (List.mem_cons_of_mem _ member)) holds'

theorem forM {ι : Type} {f : ι → ExceptT Error (StateM ω) PUnit}
    {g : ι → ExceptT Error (StateM ψ) PUnit} (items : List ι)
    (step : ∀ item, Follows keeps (f item) (g item) Eq) :
    Follows keeps (items.forM f) (items.forM g) Eq := by
  induction items with
  | nil => exact pure rfl
  | cons item rest ih => exact bind (step item) fun _ _ _ => ih

end Follows

end Fallible

/-- What couples two runs: the states they started from, and a relation between the memories of
    their hosts. -/
structure Coupling (σ τ : Type) where
  first : State
  second : State
  memory : σ → τ → Prop

namespace Coupling

variable {σ τ α β γ δ : Type} (K : Coupling σ τ)

/-- States that agree. -/
abbrev States (s t : State) : Prop := State.Agree K.first K.second s t

/-- Pushes of states that agree, to one point under the context of the run. -/
structure Pushes (p q : Push) : Prop where
  states : K.States p.state q.state
  point : q.point = p.point
  context : p.point.context = K.first.context

/-- Each of the second pushes has a partner among the first. -/
theorem Pushes.partner {ps qs : List Push} (coupled : List.Forall₂ K.Pushes ps qs) {q : Push}
    (member : q ∈ qs) : ∃ p ∈ ps, K.Pushes p q := by
  induction coupled with
  | nil => cases member
  | cons pair _ ih =>
      rcases List.mem_cons.mp member with rfl | member
      · exact ⟨_, List.mem_cons_self, pair⟩
      · obtain ⟨p, listed, found⟩ := ih member
        exact ⟨p, List.mem_cons_of_mem _ listed, found⟩

/-- Each of the first pushes has a partner among the second. -/
theorem Pushes.partner_right {ps qs : List Push} (coupled : List.Forall₂ K.Pushes ps qs) {p : Push}
    (member : p ∈ ps) : ∃ q ∈ qs, K.Pushes p q := by
  induction coupled with
  | nil => cases member
  | cons pair _ ih =>
      rcases List.mem_cons.mp member with rfl | member
      · exact ⟨_, List.mem_cons_self, pair⟩
      · obtain ⟨q, listed, found⟩ := ih member
        exact ⟨q, List.mem_cons_of_mem _ listed, found⟩

/-- Coupled machines. -/
structure Machines (m : Machine σ) (n : Machine τ) : Prop where
  states : K.States m.state n.state
  memory : K.memory m.host n.host
  pushes : List.Forall₂ K.Pushes m.pushes n.pushes

/-- The second transfer succeeds where the first does, with a related result. -/
def Simulates (x : Transfer σ α) (y : Transfer τ β) (related : α → β → Prop) : Prop :=
  Fallible.Follows K.Machines x y related

/-- The second call to a host succeeds where the first does, with a related answer. -/
def Answers (c : HostCall σ α) (d : HostCall τ β) (related : α → β → Prop) : Prop :=
  Fallible.Follows K.memory c d related

/-- One well-formed value on both sides. -/
def SameValue (v w : Value) : Prop := w = v ∧ v.WellFormed

/-- The same well-formed values on both sides. -/
def SameValues (vs ws : List Value) : Prop := ws = vs ∧ ∀ v ∈ vs, v.WellFormed

/-- The second host answers like the first, as far as transfers ask. -/
structure Hosts (a : Host σ) (b : Host τ) : Prop where
  propertyValue : ∀ className property,
    K.Answers (a.propertyValue className property) (b.propertyValue className property) SameValue
  functionValue : ∀ className function,
    K.Answers (a.functionValue className function) (b.functionValue className function) SameValue
  call : ∀ receiver method arguments, receiver.WellFormed → (∀ v ∈ arguments, v.WellFormed) →
    K.Answers (a.call receiver method arguments) (b.call receiver method arguments) SameValue
  setProperty : ∀ receiver property v, receiver.WellFormed → v.WellFormed →
    K.Answers (a.setProperty receiver property v) (b.setProperty receiver property v) Eq
  construct : ∀ site className,
    K.Answers (a.construct site className) (b.construct site className) SameValue

/-- One program under the same options. -/
structure Settings (a : Setting σ) (b : Setting τ) : Prop where
  program : b.program = a.program
  options : b.options = a.options

end Coupling

/-! ### Putting transfers together -/

namespace Coupling

namespace Simulates

open Fallible

variable {σ τ α β γ δ : Type} {K : Coupling σ τ}

/-- A pure step is followed by one that succeeds where it does. -/
theorem ofResult {R : α → β → Prop} {r : Except Error α} {r' : Except Error β}
    (follows : ∀ a, r = .ok a → ∃ b, r' = .ok b ∧ R a b) :
    K.Simulates (Transfer.ofResult r) (Transfer.ofResult r') R := by
  intro m n a m' coupled done
  obtain ⟨b, same, holds⟩ := follows a (congrArg Prod.fst done)
  have machine : m = m' := congrArg Prod.snd done
  exact ⟨b, n, by rw [same]; rfl, machine ▸ coupled, holds⟩

/-! ### Primitives -/

theorem get : K.Simulates MonadState.get MonadState.get K.Machines := by
  intro m n a m' coupled done
  cases done
  exact ⟨n, n, rfl, coupled, coupled⟩

theorem modify {f : Machine σ → Machine σ} {g : Machine τ → Machine τ}
    (keeps : ∀ m n, K.Machines m n → K.Machines (f m) (g n)) :
    K.Simulates (modify f) (modify g) Eq := by
  intro m n a m' coupled done
  cases done
  exact ⟨(), g n, rfl, keeps m n coupled, rfl⟩

theorem state : K.Simulates Transfer.state Transfer.state K.States :=
  .bind get fun _ _ coupled => .pure coupled.states

theorem modifyState {f g : State → State}
    (keeps : ∀ s t, K.States s t → K.States (f s) (g t)) :
    K.Simulates (Transfer.modifyState f) (Transfer.modifyState g) Eq :=
  modify fun _ _ coupled => ⟨keeps _ _ coupled.states, coupled.memory, coupled.pushes⟩

/-- A step on the heap can be taken on both sides, since it does not look at facts. -/
theorem changeState {f : State → Except Error State} (step : State.HeapStep f) :
    K.Simulates (Transfer.changeState f) (Transfer.changeState f) Eq := by
  refine .bind state fun s t agree => .bind (R := K.States) (ofResult ?_) ?_
  · intro s' done
    exact agree.heapStep step done
  · intro s' t' agree'
    exact modifyState fun _ _ _ => agree'

/-- The interners need not agree. -/
theorem intern (f g : Interner → Interner) :
    K.Simulates (Transfer.intern f) (Transfer.intern g) Eq :=
  modify fun _ _ coupled => ⟨coupled.states, coupled.memory, coupled.pushes⟩

/-- The logs need not agree. -/
theorem notify (event event' : Event) :
    K.Simulates (Transfer.notify event) (Transfer.notify event') Eq :=
  modify fun _ _ coupled => ⟨coupled.states, coupled.memory, coupled.pushes⟩

/-- Questions whose answers are related keep the memories of the hosts related. -/
theorem ask {R : α → β → Prop} {c : HostCall σ α} {d : HostCall τ β}
    (answers : K.Answers c d R) :
    K.Simulates (Transfer.ask c) (Transfer.ask d) R := by
  intro m n a m' coupled done
  rcases answer : c.run.run m.host with ⟨e | a', h'⟩
  · have failed : (Transfer.ask c).run.run m = (.error e, { m with host := h' }) := by
      show (c.run.run m.host |>.1, { m with host := (c.run.run m.host).2 }) = _
      rw [answer]
    rw [failed] at done
    cases done
  · have ran : (Transfer.ask c).run.run m = (.ok a', { m with host := h' }) := by
      show (c.run.run m.host |>.1, { m with host := (c.run.run m.host).2 }) = _
      rw [answer]
    rw [ran] at done
    cases done
    obtain ⟨b, k', answer', memory, holds⟩ := answers m.host n.host a h' coupled.memory answer
    refine ⟨b, { n with host := k' }, ?_, ⟨coupled.states, memory, coupled.pushes⟩, holds⟩
    show (d.run.run n.host |>.1, { n with host := (d.run.run n.host).2 }) = _
    rw [answer']

theorem internValue {v w : Value} (same : SameValue v w) :
    K.Simulates (Transfer.internValue v) (Transfer.internValue w) SameValue := by
  rw [Transfer.internValue_eq, Transfer.internValue_eq]
  exact .bind (intern _ _) fun _ _ _ => .pure same

theorem askValue {c : HostCall σ Value} {d : HostCall τ Value} (answers : K.Answers c d SameValue) :
    K.Simulates (Transfer.askValue c) (Transfer.askValue d) SameValue :=
  .bind (ask answers) fun _ _ same => internValue same

theorem readRegister (r : Register) :
    K.Simulates (Transfer.readRegister r) (Transfer.readRegister r) SameValue := by
  refine .bind state fun s t agree => ofResult ?_
  intro v done
  unfold State.readRegister at done ⊢
  rw [agree.registers]
  cases found : s.registers.get? r with
  | none => simp [found] at done
  | some w =>
      simp only [found, Except.ok.injEq] at done
      subst done
      exact ⟨w, rfl, rfl, agree.formed.registers r w found⟩

theorem readRegisters (rs : List Register) :
    K.Simulates (Transfer.readRegisters rs) (Transfer.readRegisters rs) SameValues := by
  unfold Transfer.readRegisters
  induction rs with
  | nil => exact .pure ⟨rfl, nofun⟩
  | cons r rest ih =>
      rw [List.mapM_cons, List.mapM_cons]
      refine .bind (readRegister r) fun v w same => .bind ih fun vs ws sames => .pure ?_
      refine ⟨by rw [same.1, sames.1], ?_⟩
      intro u member
      rcases List.mem_cons.mp member with rfl | member
      · exact same.2
      · exact sames.2 u member

theorem writeResult (node : Node) (r : Register) {v w : Value} (same : SameValue v w) :
    K.Simulates (Transfer.writeResult node r v) (Transfer.writeResult node r w) Eq := by
  obtain ⟨rfl, formed⟩ := same
  exact modifyState fun _ _ agree => (agree.writeRegister r formed).addMustDef r node.index

theorem writeResult? (node : Node) (r : Option Register) {v w : Value} (same : SameValue v w) :
    K.Simulates (Transfer.writeResult? node r v) (Transfer.writeResult? node r w) Eq := by
  cases r with
  | none => exact .pure rfl
  | some r => exact writeResult node r same

theorem allocate (label : Label) :
    K.Simulates (Transfer.allocate label) (Transfer.allocate label) Eq := by
  refine .bind (intern _ _) fun _ _ _ => modifyState fun s t agree => ?_
  obtain ⟨t', done, agree'⟩ :=
    agree.heapStep (.newObject label (o := .ofShape .absentModified) .absentModified) rfl
  cases done
  exact agree'

theorem currentFunction {a : Setting σ} {b : Setting τ} (settings : Settings a b) :
    K.Simulates (Transfer.currentFunction a) (Transfer.currentFunction b) Eq := by
  refine .bind state fun s t agree => ofResult ?_
  intro f done
  exact ⟨f, by rw [settings.program, agree.function, done], rfl⟩

theorem propertyKey? (name : PropertyName) :
    K.Simulates (Transfer.propertyKey? name) (Transfer.propertyKey? name) Eq := by
  cases name with
  | fixed name => exact .pure rfl
  | dynamic r => exact .bind (readRegister r) fun v w same => .pure (by rw [same.1])

/-- A transfer that fails is followed by any other. -/
theorem unexpected (node : Node) {R : α → β → Prop} (y : Transfer τ β) :
    K.Simulates (Transfer.unexpected node : Transfer σ α) y R :=
  .throw _ y

/-- States that agree are pushed to the same point. -/
theorem pushOn {a : Setting σ} {b : Setting τ} (settings : Settings a b) (node : Node) :
    K.Simulates (Transfer.pushOn a node) (Transfer.pushOn b node) Eq := by
  refine .bind (R := Eq) (ofResult ?_) ?_
  · intro successor done
    exact ⟨successor, by rw [settings.program, done], rfl⟩
  · rintro successor _ rfl
    refine .bind (modifyState fun _ _ agree => agree.freezeHeap) fun _ _ _ => modify ?_
    intro m n coupled
    refine ⟨coupled.states, coupled.memory, ?_⟩
    refine List.rel_append coupled.pushes (.cons ?_ .nil)
    exact ⟨coupled.states, by rw [coupled.states.sameContext], coupled.states.context⟩

end Simulates

end Coupling

end ScriptHeap
