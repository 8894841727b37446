import Mathlib.Tactic.TFAE
import ScriptHeap.Interner

/-!
# Interning makes identity and structure agree

A token is laid down in a cell of its own when it is first asked for, and handed out again whenever
its reason is. Reasons may hold other tokens, those of earlier runs included, so that whether two
reasons are equal depends on which tokens are identical. The numbers of a run's tokens are the
places in its table, and the table has each reason once (`Interner.Canonical`).

Over any sequence of requests and resets (`TokenSession`) the cell of a token, the token, its
number, its reason and the order all tell the same tokens apart (`TokenSession.tokens_agree`).
-/

namespace ScriptHeap

/-! ### The order of tokens -/

/-- Tokens with different numbers compare as the numbers do. -/
theorem Token.compare_of_ne {a b : Token} (distinct : a.id ≠ b.id) :
    compare a b = compare a.id b.id := by
  have unequal : compare a.id b.id ≠ .eq := fun same =>
    distinct (Std.LawfulEqOrd.eq_of_compare same)
  have first : ∀ token : Token, ∃ step rest, token.steps = step :: rest ∧ step.id = token.id := by
    intro token
    cases token <;> exact ⟨_, _, rfl, rfl⟩
  obtain ⟨x, xs, stepsA, idA⟩ := first a
  obtain ⟨y, ys, stepsB, idB⟩ := first b
  show compare a.steps b.steps = compare a.id b.id
  rw [stepsA, stepsB, List.compare_cons_cons]
  -- Steps are compared by their numbers first.
  obtain ⟨later, heads⟩ : ∃ later, compare x y = (compare a.id b.id).then later := by
    rw [← idA, ← idB]
    exact ⟨_, rfl⟩
  rw [heads]
  cases order : compare a.id b.id with
  | eq => exact absurd order unequal
  | lt => rfl
  | gt => rfl

/-! ### The table of a run -/

namespace Interner

/-- The place of the token with a reason: where it stands, or where it is going to stand. -/
def place (t : Interner) (reason : SplitReason) : Nat :=
  t.tokens.findIdx fun token => token.reason = reason

/-- The tokens of the table are numbered by their places, and no reason occurs twice. -/
structure Canonical (t : Interner) : Prop where
  numbered : ∀ (k : Nat) (token : Token), t.tokens[k]? = some token → token.id = ⟨t.run, k⟩
  distinct : (t.tokens.map Token.reason).Nodup

variable (t : Interner) (reason : SplitReason)

/-- A request finds the token in its place, or puts it at the end of the table. -/
theorem token_cases :
    (∃ token, t.tokens[t.place reason]? = some token ∧ token.reason = reason ∧
      t.token reason = (token, t)) ∨
    (∀ token ∈ t.tokens, token.reason ≠ reason) ∧ t.place reason = t.tokens.length ∧
      t.token reason = (reason.token ⟨t.run, t.tokens.length⟩,
        { t with tokens := t.tokens ++ [reason.token ⟨t.run, t.tokens.length⟩] }) := by
  unfold Interner.token findToken? place
  cases found : t.tokens.find? fun token => token.reason = reason with
  | some token =>
      refine .inl ⟨token, ?_, by simpa using List.find?_some found, rfl⟩
      rw [← List.find?_eq_getElem?_findIdx]
      exact found
  | none =>
      have missing := List.find?_eq_none.mp found
      refine .inr ⟨fun token member => by simpa using missing token member, ?_, rfl⟩
      exact List.findIdx_eq_length.mpr fun token member => by simpa using missing token member

theorem run_token : (t.token reason).2.run = t.run := by
  obtain ⟨_, _, _, same⟩ | ⟨_, _, same⟩ := t.token_cases reason
  · rw [same]
  · rw [same]

/-- The token that a request gets has the reason that was asked for. -/
theorem reason_token : (t.token reason).1.reason = reason := by
  obtain ⟨_, _, own, same⟩ | ⟨_, _, same⟩ := t.token_cases reason
  · rw [same]
    exact own
  · rw [same]
    exact Token.reason_token _ _

/-- A request moves no token from its place. -/
theorem getElem?_token {k : Nat} {other : Token} (held : t.tokens[k]? = some other) :
    (t.token reason).2.tokens[k]? = some other := by
  obtain ⟨_, _, _, same⟩ | ⟨_, _, same⟩ := t.token_cases reason
  · rw [same]
    exact held
  · obtain ⟨inside, _⟩ := List.getElem?_eq_some_iff.mp held
    rw [same]
    exact (List.getElem?_append_left inside).trans held

theorem getElem?_place :
    (t.token reason).2.tokens[t.place reason]? = some (t.token reason).1 := by
  obtain ⟨_, held, _, same⟩ | ⟨_, place, same⟩ := t.token_cases reason
  · rw [same]
    exact held
  · rw [same, place]
    exact List.getElem?_concat_length

theorem mem_reasons_token {other : SplitReason} :
    other ∈ (t.token reason).2.tokens.map Token.reason ↔
      other ∈ t.tokens.map Token.reason ∨ other = reason := by
  obtain ⟨token, held, own, same⟩ | ⟨_, _, same⟩ := t.token_cases reason
  · rw [same]
    refine ⟨.inl, ?_⟩
    rintro (member | rfl)
    · exact member
    · exact List.mem_map.mpr ⟨token, List.mem_of_getElem? held, own⟩
  · rw [same, List.map_append, List.mem_append, List.map_singleton, List.mem_singleton,
      Token.reason_token]

variable {t}

theorem Canonical.token (canonical : t.Canonical) : (t.token reason).2.Canonical := by
  obtain ⟨_, _, _, same⟩ | ⟨missing, _, same⟩ := t.token_cases reason
  · rw [same]
    exact canonical
  · rw [same]
    constructor
    · intro k token held
      rcases Nat.lt_trichotomy k t.tokens.length with before | rfl | after
      · rw [List.getElem?_append_left before] at held
        exact canonical.numbered k token held
      · rw [List.getElem?_concat_length] at held
        cases held
        exact Token.id_token _ _
      · rw [List.getElem?_eq_none (by simpa using Nat.succ_le_of_lt after)] at held
        cases held
    · rw [List.map_append, List.map_singleton, Token.reason_token]
      refine List.nodup_append.mpr ⟨canonical.distinct, List.pairwise_singleton _ _, ?_⟩
      rintro other member _ last rfl
      obtain ⟨token, listed, own⟩ := List.mem_map.mp member
      exact missing token listed (own.trans (List.mem_singleton.mp last))

/-- A reason occurs in one place of the table only. -/
theorem Canonical.place_eq (canonical : t.Canonical) {k l : Nat} {a b : Token}
    (first : t.tokens[k]? = some a) (second : t.tokens[l]? = some b)
    (same : a.reason = b.reason) : k = l := by
  obtain ⟨inside, _⟩ := List.getElem?_eq_some_iff.mp first
  refine (List.getElem?_inj (by simpa using inside) canonical.distinct).mp ?_
  rw [List.getElem?_map, List.getElem?_map, first, second, Option.map_some, Option.map_some, same]

theorem canonical_ofRun (run : Nat) : (ofRun run).Canonical :=
  ⟨nofun, List.nodup_nil⟩

end Interner

/-! ### Requests -/

/-- What an interner is asked for: a token with a reason, where the token of a callee is one of those
    handed out before, or a new run. -/
inductive TokenRequest where
  | property (node : Nat) (key : Key)
  | type (node : Nat) (tag : TypeTag)
  /-- The token of the callee is given by its place among all tokens handed out. -/
  | call (node : Nat) (context : CallString) (result : Option Nat)
  | reset

/-- A token that was handed out. -/
structure TokenIssue where
  /-- The run in which it was handed out. -/
  run : Nat
  /-- What was asked for. -/
  reason : SplitReason
  /-- Where the token lies: the number of tokens that were made before it, in all runs. -/
  cell : Nat
  token : Token
deriving DecidableEq

/-- An interner with all that it has handed out. -/
structure TokenSession where
  interner : Interner
  /-- How many tokens were made in earlier runs. -/
  earlier : Nat
  issued : List TokenIssue

namespace TokenSession

/-- Nothing was asked for. -/
def initial : TokenSession := ⟨.initial, 0, []⟩

/-- Ask for the token with a reason. -/
def ask (s : TokenSession) (reason : SplitReason) : TokenSession :=
  { s with
    interner := (s.interner.token reason).2
    issued := s.issued ++
      [⟨s.interner.run, reason, s.earlier + s.interner.place reason,
        (s.interner.token reason).1⟩] }

/-- Start the next run. -/
def reset (s : TokenSession) : TokenSession :=
  { s with interner := s.interner.reset, earlier := s.earlier + s.interner.tokens.length }

/-- Answer a request. One that names a token that was never handed out cannot be made. -/
def answer (s : TokenSession) : TokenRequest → TokenSession
  | .property node key => s.ask (.property node key)
  | .type node tag => s.ask (.type node tag)
  | .call node context none => s.ask (.call node context none)
  | .call node context (some i) =>
    match s.issued[i]? with
    | some x => s.ask (.call node context (some x.token))
    | none => s
  | .reset => s.reset

/-- Answer some requests, one after the other. -/
def run (requests : List TokenRequest) : TokenSession := requests.foldl answer initial

/-- What lies in one cell is one token. Tokens lie in one cell if they have one number, or one reason
    in one run. -/
structure Agree (x y : TokenIssue) : Prop where
  token : x.cell = y.cell → x.token = y.token
  number : x.token.id = y.token.id → x.cell = y.cell
  reason : x.run = y.run → x.token.reason = y.token.reason → x.cell = y.cell

theorem Agree.symm {x y : TokenIssue} (agree : Agree x y) : Agree y x where
  token same := (agree.token same.symm).symm
  number same := (agree.number same.symm).symm
  reason run same := (agree.reason run.symm same.symm).symm

/-- The token lies in the table of the current run. -/
structure Lies (s : TokenSession) (x : TokenIssue) (k : Nat) : Prop where
  run : x.run = s.interner.run
  held : s.interner.tokens[k]? = some x.token
  cell : x.cell = s.earlier + k

/-- The token was handed out in an earlier run. -/
structure Passed (s : TokenSession) (x : TokenIssue) : Prop where
  run : x.run < s.interner.run
  cell : x.cell < s.earlier

/-- What holds of a session all along. -/
structure Sound (s : TokenSession) : Prop where
  canonical : s.interner.Canonical
  lies : ∀ x ∈ s.issued, (∃ k, s.Lies x k) ∨ s.Passed x
  own : ∀ x ∈ s.issued, x.token.id.run = x.run ∧ x.token.reason = x.reason
  agree : ∀ x ∈ s.issued, ∀ y ∈ s.issued, Agree x y
  requested : ∀ reason, reason ∈ s.interner.tokens.map Token.reason ↔
    ∃ x ∈ s.issued, x.run = s.interner.run ∧ x.reason = reason

variable {s : TokenSession} {x y : TokenIssue}

/-- In the table of a run, tokens agree because places, numbers and reasons do. -/
theorem agree_of_lies (canonical : s.interner.Canonical) {k l : Nat} (first : s.Lies x k)
    (second : s.Lies y l) : Agree x y where
  token same := by
    obtain rfl : k = l := by have := first.cell; have := second.cell; omega
    exact Option.some.inj (first.held.symm.trans second.held)
  number same := by
    rw [canonical.numbered k _ first.held, canonical.numbered l _ second.held] at same
    rw [first.cell, second.cell, (TokenId.mk.inj same).2]
  reason _ same := by
    rw [first.cell, second.cell, canonical.place_eq first.held second.held same]

/-- A token of the table has nothing in common with those of earlier runs. -/
theorem agree_of_passed (canonical : s.interner.Canonical) {k : Nat} (first : s.Lies x k)
    (second : s.Passed y) (own : y.token.id.run = y.run) : Agree x y where
  token same := by have := first.cell; have := second.cell; omega
  number same := by
    have number := canonical.numbered k _ first.held
    have := second.run
    rw [← same, number] at own
    exact absurd own.symm (Nat.ne_of_lt this)
  reason same _ := absurd (same.symm.trans first.run) (Nat.ne_of_lt second.run)

theorem sound_initial : initial.Sound where
  canonical := Interner.canonical_ofRun 0
  lies := nofun
  own := nofun
  agree := nofun
  requested := fun _ => ⟨nofun, by rintro ⟨_, ⟨⟩, _⟩⟩

theorem Sound.reset (sound : s.Sound) : s.reset.Sound where
  canonical := Interner.canonical_ofRun _
  lies := by
    intro x member
    rcases sound.lies x member with ⟨k, lies⟩ | passed
    · obtain ⟨inside, _⟩ := List.getElem?_eq_some_iff.mp lies.held
      refine .inr ⟨lies.run ▸ Nat.lt_succ_self _, ?_⟩
      rw [lies.cell]
      exact Nat.add_lt_add_left inside _
    · exact .inr ⟨Nat.lt_succ_of_lt passed.run, Nat.lt_add_right _ passed.cell⟩
  own := sound.own
  agree := sound.agree
  requested := by
    refine fun reason => ⟨nofun, ?_⟩
    rintro ⟨x, member, run, _⟩
    have next : x.run = s.interner.run + 1 := run
    rcases sound.lies x member with ⟨k, lies⟩ | passed
    · have := lies.run; omega
    · have := passed.run; omega

theorem Sound.ask (sound : s.Sound) (reason : SplitReason) : (s.ask reason).Sound := by
  have canonical := sound.canonical.token reason
  have run := s.interner.run_token reason
  let new : TokenIssue := ⟨s.interner.run, reason, s.earlier + s.interner.place reason,
    (s.interner.token reason).1⟩
  have newest : (s.ask reason).Lies new (s.interner.place reason) :=
    ⟨run.symm, s.interner.getElem?_place reason, rfl⟩
  have cases : ∀ x ∈ (s.ask reason).issued, x ∈ s.issued ∨ x = new := by
    intro x member
    exact (List.mem_append.mp member).imp_right List.mem_singleton.mp
  have lies : ∀ x ∈ (s.ask reason).issued,
      (∃ k, (s.ask reason).Lies x k) ∨ (s.ask reason).Passed x := by
    intro x member
    rcases cases x member with old | rfl
    · rcases sound.lies x old with ⟨k, lies⟩ | passed
      · exact .inl ⟨k, lies.run.trans run.symm,
          s.interner.getElem?_token reason lies.held, lies.cell⟩
      · exact .inr ⟨run.symm ▸ passed.run, passed.cell⟩
    · exact .inl ⟨_, newest⟩
  have own : ∀ x ∈ (s.ask reason).issued, x.token.id.run = x.run ∧ x.token.reason = x.reason := by
    intro x member
    rcases cases x member with old | rfl
    · exact sound.own x old
    · refine ⟨?_, s.interner.reason_token reason⟩
      rw [canonical.numbered _ _ newest.held]
      exact run
  refine ⟨canonical, lies, own, ?_, ?_⟩
  · intro x first y second
    rcases lies x first with ⟨k, inTable⟩ | passed
    · rcases lies y second with ⟨l, inTable'⟩ | passed'
      · exact agree_of_lies canonical inTable inTable'
      · exact agree_of_passed canonical inTable passed' (own y second).1
    · rcases lies y second with ⟨l, inTable'⟩ | passed'
      · exact (agree_of_passed canonical inTable' passed (own x first).1).symm
      · -- Neither is the one just handed out.
        have former : ∀ z ∈ (s.ask reason).issued, (s.ask reason).Passed z → z ∈ s.issued := by
          intro z member passed
          refine (cases z member).resolve_right ?_
          rintro rfl
          exact absurd newest.run (Nat.ne_of_lt passed.run)
        exact sound.agree x (former x first passed) y (former y second passed')
  · intro other
    have same : (s.ask reason).interner.run = s.interner.run := run
    rw [same]
    refine (s.interner.mem_reasons_token reason).trans ?_
    rw [sound.requested]
    constructor
    · rintro (⟨x, member, current, asked⟩ | rfl)
      · exact ⟨x, List.mem_append_left _ member, current, asked⟩
      · exact ⟨new, List.mem_append_right _ List.mem_cons_self, rfl, rfl⟩
    · rintro ⟨x, member, current, asked⟩
      rcases cases x member with old | rfl
      · exact .inl ⟨x, old, current, asked⟩
      · exact .inr asked.symm

theorem Sound.answer (sound : s.Sound) (request : TokenRequest) : (s.answer request).Sound := by
  unfold TokenSession.answer
  split
  · exact sound.ask _
  · exact sound.ask _
  · exact sound.ask _
  · split
    · exact sound.ask _
    · exact sound
  · exact sound.reset

theorem sound_run (requests : List TokenRequest) : (run requests).Sound := by
  suffices sound : ∀ s : TokenSession, s.Sound → (requests.foldl TokenSession.answer s).Sound from
    sound initial sound_initial
  induction requests with
  | nil => exact fun _ sound => sound
  | cons request rest ih => exact fun s sound => ih _ (sound.answer request)

theorem Sound.token_eq_iff (sound : s.Sound) (first : x ∈ s.issued) (second : y ∈ s.issued) :
    x.token = y.token ↔ x.cell = y.cell := by
  refine ⟨fun same => ?_, (sound.agree x first y second).token⟩
  exact (sound.agree x first y second).number (congrArg Token.id same)

/-- Of two tokens that were handed out, the order sees the numbers only. -/
theorem Sound.compare_eq (sound : s.Sound) (first : x ∈ s.issued) (second : y ∈ s.issued) :
    compare x.token y.token = compare x.token.id y.token.id := by
  by_cases same : x.token.id = y.token.id
  · have agree := sound.agree x first y second
    rw [agree.token (agree.number same)]
    exact Std.ReflOrd.compare_self.trans Std.ReflOrd.compare_self.symm
  · exact Token.compare_of_ne same

/-- Within a run, tokens are told apart alike by their cells, as such, by their reasons, by what was
    asked for and by the order. -/
theorem Sound.tfae (sound : s.Sound) (first : x ∈ s.issued) (second : y ∈ s.issued)
    (run : x.run = y.run) :
    List.TFAE [x.cell = y.cell, x.token = y.token, x.token.sameReason y.token = true,
      x.token.reason = y.token.reason, x.reason = y.reason, compare x.token y.token = .eq] := by
  tfae_have 1 ↔ 2 := (sound.token_eq_iff first second).symm
  tfae_have 2 → 4 := congrArg Token.reason
  tfae_have 4 → 1 := (sound.agree x first y second).reason run
  tfae_have 3 ↔ 4 := by
    unfold Token.sameReason
    rw [decide_eq_true_iff]
  tfae_have 4 ↔ 5 := by rw [(sound.own x first).2, (sound.own y second).2]
  tfae_have 2 ↔ 6 := Std.LawfulEqOrd.compare_eq_iff_eq.symm
  tfae_finish

theorem Sound.apart (sound : s.Sound) (first : x ∈ s.issued) (second : y ∈ s.issued)
    (runs : x.run ≠ y.run) :
    x.cell ≠ y.cell ∧ x.token ≠ y.token ∧ compare x.token y.token ≠ .eq := by
  have tokens : x.token ≠ y.token := fun same => runs (by
    rw [← (sound.own x first).1, ← (sound.own y second).1, same])
  exact ⟨fun same => tokens ((sound.token_eq_iff first second).mpr same), tokens,
    fun same => tokens (Std.LawfulEqOrd.eq_of_compare same)⟩

/-- However tokens are asked for and runs are started: within a run, tokens are identical if and only
    if they have the same structure, the same reason or an equal place in the order; those of
    different runs never are. The order is that of the numbers, and total. The table has exactly one
    token for each reason that was asked for in the current run. -/
theorem tokens_agree (requests : List TokenRequest) :
    (∀ x ∈ (run requests).issued, ∀ y ∈ (run requests).issued,
      (x.run = y.run → List.TFAE [x.cell = y.cell, x.token = y.token,
        x.token.sameReason y.token = true, x.token.reason = y.token.reason, x.reason = y.reason,
        compare x.token y.token = .eq]) ∧
      (x.run ≠ y.run → x.cell ≠ y.cell ∧ x.token ≠ y.token ∧ compare x.token y.token ≠ .eq) ∧
      compare x.token y.token = compare x.token.id y.token.id ∧
      compare y.token x.token = (compare x.token y.token).swap ∧
      (compare x.token y.token = .eq ↔ x.cell = y.cell) ∧
      ∀ z ∈ (run requests).issued, (compare x.token y.token).isLE → (compare y.token z.token).isLE →
        (compare x.token z.token).isLE) ∧
    ((run requests).interner.tokens.map Token.reason).Nodup ∧
    ∀ reason, reason ∈ (run requests).interner.tokens.map Token.reason ↔
      ∃ x ∈ (run requests).issued, x.run = (run requests).interner.run ∧ x.reason = reason := by
  have sound := sound_run requests
  refine ⟨fun x first y second => ⟨?_, ?_, ?_, ?_, ?_, ?_⟩, sound.canonical.distinct,
    sound.requested⟩
  · exact sound.tfae first second
  · exact sound.apart first second
  · exact sound.compare_eq first second
  · exact Std.OrientedOrd.eq_swap
  · rw [Std.LawfulEqOrd.compare_eq_iff_eq, sound.token_eq_iff first second]
  · exact fun z _ => Std.TransOrd.isLE_trans

/-- Requests for one property in two runs, the first of them repeated, and for a call on each of the
    two tokens. -/
def twoRuns : List TokenRequest :=
  [.property 3 (.name "x"), .type 3 .string, .property 3 (.name "x"), .reset,
    .property 3 (.name "x"), .call 5 .main (some 0), .call 5 .main (some 3)]

/-- The token of the call on the token of the first run. -/
def callOnOld : TokenIssue :=
  let nested : Token := .property ⟨0, 0⟩ 3 (.name "x")
  ⟨1, .call 5 .main (some nested), 3, .call ⟨1, 1⟩ 5 .main nested⟩

/-- The token of the call on the token of the second run. -/
def callOnNew : TokenIssue :=
  let nested : Token := .property ⟨1, 0⟩ 3 (.name "x")
  ⟨1, .call 5 .main (some nested), 4, .call ⟨1, 2⟩ 5 .main nested⟩

/-- The two calls have different tokens, since the tokens they are on are not identical. -/
theorem twoRuns_agree :
    (run twoRuns).issued.map TokenIssue.cell = [0, 1, 0, 2, 3, 4] ∧
      callOnOld ∈ (run twoRuns).issued ∧ callOnNew ∈ (run twoRuns).issued ∧
      callOnOld.run = callOnNew.run ∧ callOnOld.reason ≠ callOnNew.reason ∧
      callOnOld.token ≠ callOnNew.token ∧ compare callOnOld.token callOnNew.token ≠ .eq := by
  have first : callOnOld ∈ (run twoRuns).issued := by decide +kernel
  have second : callOnNew ∈ (run twoRuns).issued := by decide +kernel
  have cells : callOnOld.cell ≠ callOnNew.cell := by decide
  have tfae := ((tokens_agree twoRuns).1 callOnOld first callOnNew second).1 rfl
  exact ⟨by decide +kernel, first, second, rfl, mt (tfae.out 4 0).mp cells,
    mt (tfae.out 1 0).mp cells, mt (tfae.out 5 0).mp cells⟩

end TokenSession

end ScriptHeap
