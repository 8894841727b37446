import ScriptHeap.Proofs.Transfer.Calls

/-!
# Calls on several host values

The receiver of a call may be one of several host values. The first host label decides how the call
is made: whether an instance is made and of which class, whether methods or static methods are asked
for. Where the call on another of the labels alone would take another route (`Foreign.SameRoute`),
what it would write is in general not covered.
-/

namespace ScriptHeap

/-- Joining the second value to the first changes nothing, or they are the same. This is how states
    join their registers. -/
def Value.Covers (v w : Value) : Prop := v = w ∨ v.Absorbs w

instance (v w : Value) : Decidable (v.Covers w) := inferInstanceAs (Decidable (_ ∨ _))

theorem Value.Covers.labels {v w : Value} (covers : v.Covers w) (formed : v.WellFormed)
    (known : v.isUnknown = false) : ∀ label ∈ w.labels, label ∈ v.labels := by
  rcases covers with rfl | absorbed
  · exact fun _ member => member
  · exact absorbed.labels formed known

namespace Machine

variable {σ : Type}

/-- The machine with a single label in a register. -/
def narrow (m : Machine σ) (r : Register) (label : Label) : Machine σ :=
  { m with state := { m.state with registers := m.state.registers.insert r (.object label) } }

/-- The machine with another memory of the host. -/
def withHost (m : Machine σ) (host : σ) : Machine σ := { m with host }

/-- The machine without a definition of a register. -/
def undefine (m : Machine σ) (r : Register) : Machine σ :=
  { m with state := { m.state with mustDefs := m.state.mustDefs.erase r } }

end Machine

namespace Foreign

open Fallible

/-- The node can be run on the machine. -/
def Succeeds (setting : Setting ClassTable) (node : Node) (m : Machine ClassTable) : Prop :=
  ∃ handover m', ((Dispatcher.base.withLayer layer).dispatch setting node).run.run m =
    (.ok handover, m')

/-- The node can be run on the machine and writes a value to a register. That it writes the register
    shows where the register had no definition before: the node is its definition then. -/
structure Returns (setting : Setting ClassTable) (node : Node) (q : Register)
    (m : Machine ClassTable) (v : Value) : Prop where
  value : ∃ handover m', ((Dispatcher.base.withLayer layer).dispatch setting node).run.run m =
    (.ok handover, m') ∧ m'.state.registers.get? q = some v
  written : ∃ handover m', ((Dispatcher.base.withLayer layer).dispatch setting node).run.run
    (m.undefine q) = (.ok handover, m') ∧ m'.state.mustDefs.get? q = some node.index

section Outcome

variable {setting : Setting ClassTable} {node : Node} {operands : CallOperands} {q r : Register}
  {m : Machine ClassTable} {whole : Value} (host : setting.host = ClassTable.host)
  (operation : node.operation = .call operands) (receiver : receiver? operands = some r)
  (held : m.state.registers.get? r = some whole)

include host operation receiver held

theorem returns_iff (result : operands.result = some q) {v : Value} :
    Returns setting node q m v ↔ outcome? setting node operands m whole = some (some v) := by
  constructor
  · rintro ⟨⟨handover, m', ran, value⟩, handover₁, m₁, ranWithout, written⟩
    obtain ⟨o, outcome⟩ := outcome_of_call host operation receiver held ran
    obtain ⟨_, m'', ranAgain, leaves⟩ := call_succeeds host operation result receiver held outcome
    obtain rfl : m' = m'' := (Prod.mk.inj (ran.symm.trans ranAgain)).2
    cases o with
    | some u =>
        have wrote : Transfer.Wrote m' node q u := leaves
        rw [outcome, ← value, wrote.value]
    | none =>
        -- Nothing would be written where the register is not defined, either.
        obtain ⟨_, m₂, ranWithoutAgain, same⟩ := call_succeeds (m := m.undefine q) host operation
          result receiver held outcome
        obtain rfl : m₁ = m₂ := (Prod.mk.inj (ranWithout.symm.trans ranWithoutAgain)).2
        have unchanged : m₁.state = (m.undefine q).state := same
        rw [unchanged] at written
        have erased : (m.state.mustDefs.erase q).get? q = none := by
          rw [FinMap.get?_erase, if_pos rfl]
        cases erased.symm.trans written
  · intro outcome
    obtain ⟨_, m', ran, wrote⟩ := call_succeeds host operation result receiver held outcome
    obtain ⟨_, m₁, ranWithout, wroteWithout⟩ :=
      call_succeeds (m := m.undefine q) host operation result receiver held outcome
    exact ⟨⟨_, m', ran, wrote.value⟩, _, m₁, ranWithout, wroteWithout.definition⟩

theorem succeeds_iff (result : operands.result = some q) :
    Succeeds setting node m ↔ ∃ o, outcome? setting node operands m whole = some o := by
  constructor
  · rintro ⟨_, _, ran⟩
    exact outcome_of_call host operation receiver held ran
  · rintro ⟨o, outcome⟩
    obtain ⟨_, _, ran, _⟩ := call_succeeds host operation result receiver held outcome
    exact ⟨_, _, ran⟩

end Outcome

/-! ### Outcomes by routes -/

open Value (HostPart)

variable {setting : Setting ClassTable} {node : Node} {operands : CallOperands} {q r : Register}
  {m : Machine ClassTable} {whole v w : Value} {part : HostPart}

/-- There is one block to go on with. -/
def GoesOn (setting : Setting ClassTable) (node : Node) : Prop :=
  ∃ next, setting.program.singleSuccessor node.block = .ok next

theorem finished_iff {o : Option Value} :
    finish?.finished setting node operands whole v = some o ↔
      GoesOn setting node ∧ o = some (withOrdinary node operands whole v) := by
  constructor
  · exact of_finished
  · rintro ⟨⟨next, known⟩, rfl⟩
    exact finished_eq known

theorem outcome_iff {o : Option Value} :
    outcome? setting node operands m whole = some o ↔
      m.state.Readable operands.arguments ∧ ∃ answer,
        answer? setting node operands m whole = some answer ∧
        finish? setting node operands whole answer = some o := by
  unfold outcome?
  by_cases readable : m.state.Readable operands.arguments
  · rw [if_pos (readable_iff.mpr readable), Option.bind_eq_some_iff]
    exact ⟨fun found => ⟨readable, found⟩, fun found => found.2⟩
  · rw [if_neg (mt readable_iff.mp readable)]
    exact ⟨nofun, fun found => absurd found.1 readable⟩

section Outcomes

variable {label : Label} {name : String} {o : Option Value}

theorem outcome_construct (constructor : operands.constructor = true)
    (head : whole.hostParts.head? = some (.type label)) :
    outcome? setting node operands m whole = some o ↔
      m.state.Readable operands.arguments ∧ ∃ c description, label.className = some c ∧
        m.host.classes.get? c = some description ∧ description.constructible = true ∧
        GoesOn setting node ∧ o = some (withOrdinary node operands whole (instanceOf node c)) := by
  rw [outcome_iff]
  refine and_congr_right fun _ => ⟨?_, ?_⟩
  · rintro ⟨answer, answered, finished⟩
    obtain ⟨c, description, known, found, constructible, rfl⟩ :=
      (answer_construct constructor head).mp answered
    exact ⟨c, description, known, found, constructible, finished_iff.mp finished⟩
  · rintro ⟨c, description, known, found, constructible, finished⟩
    exact ⟨_, (answer_construct constructor head).mpr
      ⟨c, description, known, found, constructible, rfl⟩, finished_iff.mpr finished⟩

theorem outcome_construct_ordinary (constructor : operands.constructor = true)
    (head : ∀ label, whole.hostParts.head? ≠ some (.type label)) :
    outcome? setting node operands m whole = some o ↔
      m.state.Readable operands.arguments ∧ o = some (ordinaryResult node operands) := by
  rw [outcome_iff, answer_construct_ordinary constructor head]
  refine and_congr_right fun _ => ⟨?_, ?_⟩
  · rintro ⟨answer, answered, finished⟩
    cases answered
    exact (Option.some.inj finished).symm
  · rintro rfl
    exact ⟨_, rfl, rfl⟩

theorem outcome_static (constructor : operands.constructor = false)
    (property : operands.property = some name) (head : whole.hostParts.head? = some (.type label)) :
    outcome? setting node operands m whole = some o ↔
      m.state.Readable operands.arguments ∧ ∃ c u, label.className = some c ∧
        m.host.member? HostClass.statics c name = some u ∧ GoesOn setting node ∧
        o = some (withOrdinary node operands whole u) := by
  rw [outcome_iff]
  refine and_congr_right fun _ => ⟨?_, ?_⟩
  · rintro ⟨answer, answered, finished⟩
    obtain ⟨c, u, known, given, rfl⟩ := (answer_static constructor property head).mp answered
    exact ⟨c, u, known, given, finished_iff.mp finished⟩
  · rintro ⟨c, u, known, given, finished⟩
    exact ⟨_, (answer_static constructor property head).mpr ⟨c, u, known, given, rfl⟩,
      finished_iff.mpr finished⟩

theorem outcome_method (constructor : operands.constructor = false)
    (property : operands.property = some name)
    (head : whole.hostParts.head? = some (.object label)) :
    outcome? setting node operands m whole = some o ↔
      m.state.Readable operands.arguments ∧ ∃ c u, label.className = some c ∧
        methodAnswer? m.host whole name = some u ∧
        finish? setting node operands whole (.method u) = some o := by
  rw [outcome_iff]
  refine and_congr_right fun _ => ⟨?_, ?_⟩
  · rintro ⟨answer, answered, finished⟩
    obtain ⟨c, u, known, given, rfl⟩ := (answer_method constructor property head).mp answered
    exact ⟨c, u, known, given, finished⟩
  · rintro ⟨c, u, known, given, finished⟩
    exact ⟨_, (answer_method constructor property head).mpr ⟨c, u, known, given, rfl⟩, finished⟩

theorem finish_method (result : isNoResult v = false) :
    finish? setting node operands whole (.method v) = some o ↔
      GoesOn setting node ∧ o = some (withOrdinary node operands whole v) := by
  rw [finish?, if_neg (by simp [result]), finished_iff]

end Outcomes

/-! ### One label alone -/

theorem readable_narrow (held : m.state.registers.get? r = some whole) (label : Label)
    {rs : List Register} : (m.narrow r label).state.Readable rs ↔ m.state.Readable rs := by
  have same : ∀ other, (((m.narrow r label).state.registers.get? other).isSome = true ↔
      (m.state.registers.get? other).isSome = true) := by
    intro other
    show ((m.state.registers.insert r _).get? other).isSome = true ↔ _
    rw [FinMap.get?_insert]
    split
    · rename_i equal
      rw [equal, held]
      exact iff_of_true rfl rfl
    · exact Iff.rfl
  exact forall₂_congr fun other _ => same other

theorem ofLabel_of_mem (member : part ∈ whole.hostParts) :
    HostPart.ofLabel? part.label = some part := by
  obtain ⟨label, _, made⟩ := List.mem_filterMap.mp member
  have own : part.label = label := by
    unfold HostPart.ofLabel? at made
    split at made <;> cases made <;> rfl
  rw [own, made]

theorem hostParts_object (made : HostPart.ofLabel? part.label = some part) :
    (Value.object part.label).hostParts = [part] := by
  show [part.label].filterMap HostPart.ofLabel? = [part]
  rw [List.filterMap_cons, made]
  rfl

theorem notForeign_object (made : HostPart.ofLabel? part.label = some part) :
    (Value.object part.label).notForeign.isNone = true := by
  have isForeign : part.label.isForeign = true := by
    unfold HostPart.ofLabel? at made
    unfold Label.isForeign
    split at made
    case h_4 => cases made
    all_goals
      rename_i kind
      rw [kind]
      rfl
  have empty :
      ((FinSet.singleton part.label).filter fun label => !label.isForeign).isEmpty = true := by
    rw [FinSet.isEmpty_eq_true_iff]
    intro label member
    obtain ⟨listed, kept⟩ := FinSet.mem_filter.mp member
    rw [FinSet.mem_singleton.mp listed, isForeign] at kept
    cases kept
  show (_ && ((FinSet.singleton part.label).filter fun label => !label.isForeign).isEmpty) = true
  rw [empty]
  rfl

theorem head_object (made : HostPart.ofLabel? part.label = some part) :
    (Value.object part.label).hostParts.head? = some part := by
  rw [hostParts_object made]
  rfl

/-- An answer for a single label is written as it is. -/
theorem withOrdinary_object (made : HostPart.ofLabel? part.label = some part) :
    withOrdinary node operands (.object part.label) v = v :=
  if_pos (notForeign_object made)

/-- For a single label only a result is written. -/
theorem of_finish_object (made : HostPart.ofLabel? part.label = some part)
    (finished : finish? setting node operands (.object part.label) (.method v) = some (some w)) :
    GoesOn setting node ∧ w = v := by
  rw [finish?] at finished
  split at finished
  · rw [if_pos (notForeign_object made)] at finished
    cases finished
  · obtain ⟨goesOn, written⟩ := finished_iff.mp finished
    rw [withOrdinary_object made] at written
    exact ⟨goesOn, Option.some.inj written⟩

/-- The answers for the classes, and their join. -/
theorem of_foldlM_join {f : String → Option Value} {classes : List String} {start u : Value}
    (folded : classes.foldlM (fun v c => (f c).map v.join) start = some u) :
    ∃ values : List Value, (∀ c ∈ classes, ∃ v ∈ values, f c = some v) ∧
      (∀ v ∈ values, ∃ c, f c = some v) ∧ u = values.foldl Value.join start := by
  induction classes generalizing start with
  | nil =>
      cases folded
      exact ⟨[], nofun, nofun, rfl⟩
  | cons c rest ih =>
      rw [List.foldlM_cons] at folded
      obtain ⟨joined, first, later⟩ := Option.bind_eq_some_iff.mp folded
      obtain ⟨v, answered, rfl⟩ := Option.map_eq_some_iff.mp first
      obtain ⟨values, each, given, rfl⟩ := ih later
      refine ⟨v :: values, ?_, ?_, rfl⟩
      · intro other member
        rcases List.mem_cons.mp member with rfl | member
        · exact ⟨v, List.mem_cons_self, answered⟩
        · obtain ⟨w, listed, found⟩ := each other member
          exact ⟨w, List.mem_cons_of_mem _ listed, found⟩
      · intro other member
        rcases List.mem_cons.mp member with rfl | member
        · exact ⟨c, answered⟩
        · exact given other member

theorem methodAnswer_object (made : HostPart.ofLabel? part.label = some part)
    (notRoot : part.isRoot = false) {table : ClassTable} {name : String} :
    methodAnswer? table (.object part.label) name = part.className.bind fun c =>
      (table.member? HostClass.methods c name).map Value.none.join := by
  unfold methodAnswer?
  rw [hostParts_object made]
  have kept : [part].filter (fun part => !part.isRoot) = [part] := by simp [notRoot]
  rw [kept, List.filterMap_cons]
  cases part.className with
  | none => rfl
  | some c =>
      show [c].foldlM _ _ = (table.member? HostClass.methods c name).map Value.none.join
      rw [List.foldlM_cons]
      cases table.member? HostClass.methods c name <;> rfl

/-- The answer for a receiver absorbs the answer for each of its labels. -/
theorem methodAnswer_absorbs {table : ClassTable} (formed : table.All Value.WellFormed)
    (member : part ∈ whole.hostParts) (notRoot : part.isRoot = false) {name : String}
    (answered : methodAnswer? table whole name = some v)
    (alone : methodAnswer? table (.object part.label) name = some w) :
    v.WellFormed ∧ w.WellFormed ∧ v.Absorbs w := by
  rw [methodAnswer_object (ofLabel_of_mem member) notRoot] at alone
  obtain ⟨c, named, alone⟩ := Option.bind_eq_some_iff.mp alone
  obtain ⟨u, found, rfl⟩ := Option.map_eq_some_iff.mp alone
  have listed : c ∈ (whole.hostParts.filter fun part => !part.isRoot).filterMap
      HostPart.className :=
    List.mem_filterMap.mpr ⟨part, List.mem_filter.mpr ⟨member, by simp [notRoot]⟩, named⟩
  unfold methodAnswer? at answered
  generalize (whole.hostParts.filter fun part => !part.isRoot).filterMap HostPart.className =
    classes
    at answered listed
  cases classes with
  | nil => cases listed
  | cons first rest =>
      obtain ⟨values, each, given, rfl⟩ := of_foldlM_join answered
      have bottom : Value.none.WellFormed := .ofFlags _
      have formedValues : ∀ u ∈ values, u.WellFormed := by
        intro u isValue
        obtain ⟨c', found'⟩ := given u isValue
        obtain ⟨d, foundClass, known⟩ := Option.bind_eq_some_iff.mp found'
        exact (formed c' d foundClass).methods name u known
      obtain ⟨u', isValue, found'⟩ := each c listed
      obtain rfl : u = u' := Option.some.inj (found.symm.trans found')
      have absorbed := Value.foldl_join_absorbs formedValues bottom u isValue
      refine ⟨Value.WellFormed.foldl_join values bottom formedValues,
        bottom.join (formedValues u isValue), ?_⟩
      cases known : u.isUnknown with
      | false =>
          rw [Value.none_join (formedValues u isValue) known]
          exact absorbed
      | true =>
          -- A join with an unknown value is the unknown value.
          have joined : values.foldl Value.join .none = .unknown :=
            absorbed.symm.trans (Value.join_unknown (by rw [known, Bool.or_true]))
          rw [joined, Value.join_unknown (by rw [known, Bool.or_true])]
          exact Value.join_unknown rfl

/-! ### Routes -/

/-- The call on a receiver takes the route of the call on one of its labels alone. Constructor calls
    make an instance of the class of the first label, or an ordinary object; what an instance alone
    gives is made for the ordinary part, too. Method calls ask for the methods of all classes, or
    for a static method of the class of the first label. -/
def SameRoute (operands : CallOperands) (receiver : Value) (part : HostPart) : Prop :=
  match operands.constructor, receiver.hostParts.head?, part with
  | true, some (.type first), .type label => first.className = label.className
  | true, _, .type _ => False
  | true, some (.type _), _ => receiver.notForeign.isNone = false
  | true, _, _ => True
  | false, some (.object _), .object _ => True
  | false, some (.type first), .type label => first.className = label.className
  | false, _, _ => False

theorem ordinaryResult_wellFormed : (ordinaryResult node operands).WellFormed := by
  unfold ordinaryResult
  split
  · exact .objects _
  · exact .ofFlags _

/-- The written value covers what it was made of. -/
theorem withOrdinary_covers (formed : v.WellFormed) (formedOther : w.WellFormed)
    (covers : v.Covers w) : (withOrdinary node operands whole v).Covers w := by
  unfold withOrdinary
  split
  · exact covers
  · rcases covers with rfl | absorbed
    · exact .inr (Value.join_absorbs_left formed ordinaryResult_wellFormed)
    · exact .inr (absorbed.join formed formedOther ordinaryResult_wellFormed)

theorem withOrdinary_wellFormed (formed : v.WellFormed) :
    (withOrdinary node operands whole v).WellFormed := by
  unfold withOrdinary
  split
  · exact formed
  · exact formed.join ordinaryResult_wellFormed

theorem ordinaryResult_known : (ordinaryResult node operands).isUnknown = false := by
  unfold ordinaryResult
  split <;> rfl

theorem withOrdinary_known (known : v.isUnknown = false) :
    (withOrdinary node operands whole v).isUnknown = false := by
  unfold withOrdinary
  split
  · exact known
  · rw [Value.isUnknown_join, known, ordinaryResult_known]
    rfl

theorem mem_labels_withOrdinary (formed : v.WellFormed) (known : v.isUnknown = false)
    {label : Label} (member : label ∈ (withOrdinary node operands whole v).labels) :
    label ∈ v.labels ∨ label ∈ (ordinaryResult node operands).labels := by
  unfold withOrdinary at member
  split at member
  · exact .inl member
  · rw [Value.join_eq formed known ordinaryResult_known] at member
    exact FinSet.mem_union.mp member

/-- A value that does not have an object among its own does not cover it. -/
theorem not_covers_object (formed : v.WellFormed) (known : v.isUnknown = false) {label : Label}
    (missing : label ∉ v.labels) : ¬ v.Covers (.object label) :=
  fun covers => missing (covers.labels formed known label (FinSet.mem_singleton.mpr rfl))

theorem withOrdinary_not_covers (formed : v.WellFormed) (known : v.isUnknown = false)
    {label : Label} (missing : label ∉ v.labels)
    (other : label ∉ (ordinaryResult node operands).labels) :
    ¬ (withOrdinary node operands whole v).Covers (.object label) :=
  not_covers_object (withOrdinary_wellFormed formed) (withOrdinary_known known) fun member =>
    (mem_labels_withOrdinary formed known member).elim missing other

/-- The objects that the ordinary rule makes. -/
theorem mem_labels_ordinaryResult {label : Label}
    (member : label ∈ (ordinaryResult node operands).labels) :
    label = ⟨node.index, .object, none⟩ := by
  unfold ordinaryResult at member
  split at member
  · exact FinSet.mem_singleton.mp member
  · cases member

/-! ### Tables that tell routes apart -/

/-- An object that no call makes by itself. -/
def marked : Value := .object ⟨0, .function, none⟩

theorem marked_fresh : (⟨0, .function, none⟩ : Label) ∉ (ordinaryResult node operands).labels := by
  intro listed
  have kinds : Kind.function = .object := congrArg Label.kind (mem_labels_ordinaryResult listed)
  cases kinds

theorem ordinaryResult_not_covers_marked : ¬ (ordinaryResult node operands).Covers marked :=
  not_covers_object ordinaryResult_wellFormed ordinaryResult_known marked_fresh

theorem null_not_covers_marked : ¬ (withOrdinary node operands whole .null).Covers marked :=
  withOrdinary_not_covers (.ofFlags _) rfl nofun marked_fresh

theorem typeToken_not_covers_marked (c : String) :
    ¬ (withOrdinary node operands whole (typeToken node c)).Covers marked := by
  refine withOrdinary_not_covers ?_ rfl ?_ marked_fresh
  · exact .of_whole rfl nofun
  · intro member
    have kinds : Kind.function = .foreignType :=
      congrArg Label.kind (FinSet.mem_singleton.mp member)
    cases kinds

/-- A table in which all classes have a method and a static method of one name. -/
def answering (classes : List String) (name : String) (method : Value) (static : String → Value) :
    ClassTable :=
  ⟨.ofList (classes.map fun c =>
    (c, { name := c, methods := FinMap.insert ∅ name method,
          statics := FinMap.insert ∅ name (static c) })), [], []⟩

section Answering

variable {classes : List String} {name : String} {method : Value} {static : String → Value}

theorem classes_answering (c : String) :
    (answering classes name method static).classes.get? c = if c ∈ classes then
      some { name := c, methods := FinMap.insert ∅ name method,
             statics := FinMap.insert ∅ name (static c) } else none :=
  FinMap.get?_ofList_map _ classes c

theorem answering_built (builtMethod : method.Built) (builtStatic : ∀ c, (static c).Built) :
    (answering classes name method static).All Value.Built := by
  intro c description found
  rw [classes_answering] at found
  split at found
  · cases found
    refine ⟨fun other v listed => ?_, fun other v listed => ?_, fun other v listed => ?_⟩
    · cases listed
    · rw [FinMap.get?_insert] at listed
      split at listed
      · cases listed
        exact builtMethod
      · cases listed
    · rw [FinMap.get?_insert] at listed
      split at listed
      · cases listed
        exact builtStatic c
      · cases listed
  · cases found

theorem method_answering {c : String} (listed : c ∈ classes) :
    (answering classes name method static).member? HostClass.methods c name = some method := by
  unfold ClassTable.member?
  rw [classes_answering, if_pos listed]
  exact FinMap.get?_insert_self _ _ _

theorem static_answering {c : String} (listed : c ∈ classes) :
    (answering classes name method static).member? HostClass.statics c name = some (static c) := by
  unfold ClassTable.member?
  rw [classes_answering, if_pos listed]
  exact FinMap.get?_insert_self _ _ _

theorem foldlM_null {asked : List String} (listed : ∀ c ∈ asked, c ∈ classes) :
    asked.foldlM (fun (v : Value) c => ((answering classes name .null static).member?
      HostClass.methods c name).map v.join) Value.null = some .null := by
  induction asked with
  | nil => rfl
  | cons c rest ih =>
      rw [List.foldlM_cons, method_answering (listed c List.mem_cons_self)]
      exact ih fun other member => listed other (List.mem_cons_of_mem _ member)

/-- If all classes answer null, then so does the table for a receiver with a class. -/
theorem methodAnswer_null
    (listed : ∀ part ∈ whole.hostParts, ∀ c, part.className = some c → c ∈ classes)
    (member : part ∈ whole.hostParts) (notRoot : part.isRoot = false) {c : String}
    (named : part.className = some c) :
    methodAnswer? (answering classes name .null static) whole name = some .null := by
  have asked : c ∈ (whole.hostParts.filter fun part => !part.isRoot).filterMap HostPart.className :=
    List.mem_filterMap.mpr ⟨part, List.mem_filter.mpr ⟨member, by simp [notRoot]⟩, named⟩
  have known : ∀ c ∈ (whole.hostParts.filter fun part => !part.isRoot).filterMap HostPart.className,
      c ∈ classes := by
    intro c member
    obtain ⟨other, isPart, named⟩ := List.mem_filterMap.mp member
    exact listed other (List.mem_of_mem_filter isPart) c named
  unfold methodAnswer?
  generalize (whole.hostParts.filter fun part => !part.isRoot).filterMap HostPart.className = all
    at asked known
  cases all with
  | nil => cases asked
  | cons first rest =>
      show (first :: rest).foldlM _ _ = _
      rw [List.foldlM_cons, method_answering (known first List.mem_cons_self)]
      exact foldlM_null fun other member => known other (List.mem_cons_of_mem _ member)

/-- For a label alone the table answers by the kind of the label. -/
theorem alone_answering (made : HostPart.ofLabel? part.label = some part)
    (notRoot : part.isRoot = false)
    (held : m.state.registers.get? r = some whole) (readable : m.state.Readable operands.arguments)
    (goesOn : GoesOn setting node) (constructor : operands.constructor = false)
    (property : operands.property = some name) {c : String} (named : part.className = some c)
    (listed : c ∈ classes) (ofObject : part.isObject = true → method = marked)
    (ofType : part.isType = true → static c = marked) :
    outcome? setting node operands
      ((m.withHost (answering classes name method static)).narrow r part.label)
      (.object part.label) = some (some marked) := by
  have readableAlone : ((m.withHost (answering classes name method static)).narrow r
      part.label).state.Readable operands.arguments :=
    (readable_narrow held part.label).mpr readable
  have headAlone := head_object made
  cases part with
  | root label => cases notRoot
  | object label =>
      have given : methodAnswer? (answering classes name method static) (.object label) name =
          some marked := by
        refine (methodAnswer_object made notRoot).trans ?_
        rw [named, Option.bind_some, method_answering listed, ofObject rfl]
        rfl
      refine (outcome_method constructor property headAlone).mpr
        ⟨readableAlone, c, marked, named, given, ?_⟩
      exact (finish_method rfl).mpr ⟨goesOn, by rw [withOrdinary_object made]⟩
  | type label =>
      have given : (answering classes name method static).member? HostClass.statics c name =
          some marked := by
        rw [static_answering listed, ofType rfl]
      refine (outcome_static constructor property headAlone).mpr
        ⟨readableAlone, c, marked, named, given, goesOn, ?_⟩
      rw [withOrdinary_object made]

end Answering

/-- A method call on a label alone that writes a result has a class to ask about, and goes on. -/
theorem of_alone_method (made : HostPart.ofLabel? part.label = some part)
    (notRoot : part.isRoot = false) (constructor : operands.constructor = false) {name : String}
    (property : operands.property = some name)
    (alone : outcome? setting node operands (m.narrow r part.label) (.object part.label) =
      some (some w)) : GoesOn setting node ∧ ∃ c, part.className = some c := by
  have headAlone := head_object made
  cases part with
  | root label => cases notRoot
  | object label =>
      obtain ⟨_, c, _, named, _, finished⟩ :=
        (outcome_method constructor property headAlone).mp alone
      exact ⟨(of_finish_object made finished).1, c, named⟩
  | type label =>
      obtain ⟨_, c, _, named, _, goesOn, _⟩ :=
        (outcome_static constructor property headAlone).mp alone
      exact ⟨goesOn, c, named⟩

/-- A method call on the root writes the same with every table. -/
theorem outcome_root (constructor : operands.constructor = false) {name : String}
    (property : operands.property = some name) {first : Label}
    (head : whole.hostParts.head? = some (.root first)) (goesOn : GoesOn setting node)
    {o : Option Value} (outcome : outcome? setting node operands m whole = some o) :
    ∃ v, (∀ table, outcome? setting node operands (m.withHost table) whole = some (some v)) ∧
      ¬ v.Covers marked := by
  obtain ⟨readable, answer, answered, _⟩ := outcome_iff.mp outcome
  obtain ⟨answers, always⟩ := answer_root constructor property head answered
  rcases answers with rfl | ⟨c, rfl⟩
  · exact ⟨_, fun table => outcome_iff.mpr ⟨readable, .ordinary, always table, rfl⟩,
      ordinaryResult_not_covers_marked⟩
  · exact ⟨_, fun table => outcome_iff.mpr ⟨readable, _, always table,
      finished_iff.mpr ⟨goesOn, rfl⟩⟩, typeToken_not_covers_marked c⟩

section Routes

variable (member : part ∈ whole.hostParts) (notRoot : part.isRoot = false) {o : Option Value}
  (outcome : outcome? setting node operands m whole = some o)
  (alone : outcome? setting node operands (m.narrow r part.label) (.object part.label) =
    some (some w))

include member notRoot outcome alone

/-- On the same route, what a constructor call writes covers what it writes for the label alone. -/
theorem construct_covers (constructor : operands.constructor = true)
    (same : SameRoute operands whole part) : ∃ v, o = some v ∧ v.Covers w := by
  have made := ofLabel_of_mem member
  have headAlone := head_object made
  unfold SameRoute at same
  cases part with
  | root label => cases notRoot
  | type label =>
      obtain ⟨_, c, _, known, _, _, _, written⟩ :=
        (outcome_construct constructor headAlone).mp alone
      rw [withOrdinary_object made] at written
      cases written
      cases head : whole.hostParts.head? with
      | none => simp only [constructor, head] at same
      | some part =>
          cases part with
          | root first | object first => simp only [constructor, head] at same
          | type first =>
              simp only [constructor, head] at same
              obtain ⟨_, d, _, knownFirst, _, _, _, rfl⟩ :=
                (outcome_construct constructor head).mp outcome
              obtain rfl : c = d := Option.some.inj (known.symm.trans (same.symm.trans knownFirst))
              exact ⟨_, rfl, withOrdinary_covers (.objects _) (.objects _) (.inl rfl)⟩
  | object label =>
      have ordinary : w = ordinaryResult node operands := by
        have other : ∀ first, (Value.object label).hostParts.head? ≠ some (.type first) := by
          intro first
          rw [show (Value.object label).hostParts.head? = _ from headAlone]
          nofun
        exact Option.some.inj ((outcome_construct_ordinary constructor other).mp alone).2
      subst ordinary
      by_cases isType : ∃ first, whole.hostParts.head? = some (.type first)
      · obtain ⟨first, head⟩ := isType
        simp only [constructor, head] at same
        obtain ⟨_, c, _, _, _, _, _, rfl⟩ := (outcome_construct constructor head).mp outcome
        refine ⟨_, rfl, .inr ?_⟩
        unfold withOrdinary
        rw [if_neg (by simp [same])]
        exact Value.join_absorbs (.objects _) ordinaryResult_wellFormed
      · obtain ⟨_, rfl⟩ :=
          (outcome_construct_ordinary constructor (not_exists.mp isType)).mp outcome
        exact ⟨_, rfl, .inl rfl⟩

/-- On the same route, what a method call writes covers what it writes for the label alone. -/
theorem method_covers (formed : m.host.All Value.WellFormed)
    (constructor : operands.constructor = false) {name : String}
    (property : operands.property = some name) (same : SameRoute operands whole part)
    (present : w.maybePresentOrUnknown = true) : ∃ v, o = some v ∧ v.Covers w := by
  have made := ofLabel_of_mem member
  have headAlone := head_object made
  unfold SameRoute at same
  cases head : whole.hostParts.head? with
  | none => simp only [constructor, head] at same
  | some firstPart =>
      cases firstPart with
      | root first => simp only [constructor, head] at same
      | object first =>
          cases part with
          | root label | type label => simp only [constructor, head] at same
          | object label =>
              obtain ⟨_, _, u, _, given, finished⟩ :=
                (outcome_method constructor property head).mp outcome
              obtain ⟨_, _, u', _, givenAlone, finishedAlone⟩ :=
                (outcome_method constructor property headAlone).mp alone
              obtain ⟨goesOn, rfl⟩ := of_finish_object made finishedAlone
              obtain ⟨formedAnswer, formedAlone, absorbed⟩ :=
                methodAnswer_absorbs formed member notRoot given givenAlone
              have result : isNoResult u = false := by
                unfold isNoResult
                rw [absorbed.maybePresentOrUnknown formedAnswer present]
                exact Bool.and_false _
              obtain ⟨_, rfl⟩ := (finish_method result).mp finished
              exact ⟨_, rfl, withOrdinary_covers formedAnswer formedAlone (.inr absorbed)⟩
      | type first =>
          cases part with
          | root label | object label => simp only [constructor, head] at same
          | type label =>
              simp only [constructor, head] at same
              obtain ⟨_, c, u, known, given, _, rfl⟩ :=
                (outcome_static constructor property head).mp outcome
              obtain ⟨_, d, u', knownAlone, givenAlone, _, written⟩ :=
                (outcome_static constructor property headAlone).mp alone
              rw [withOrdinary_object made] at written
              cases written
              obtain rfl : c = d := Option.some.inj (known.symm.trans (same.trans knownAlone))
              obtain rfl : u = w := Option.some.inj (given.symm.trans givenAlone)
              have formedAnswer : u.WellFormed := by
                obtain ⟨description, found, listed⟩ := Option.bind_eq_some_iff.mp given
                exact (formed c description found).statics name u listed
              exact ⟨_, rfl, withOrdinary_covers formedAnswer formedAnswer (.inl rfl)⟩

/-- On another route, a constructor call writes a value that does not cover the other one. -/
theorem construct_not_covers (constructor : operands.constructor = true)
    (other : ¬ SameRoute operands whole part) :
    w.maybePresentOrUnknown = true ∧ ∃ v, o = some v ∧ ¬ v.Covers w := by
  have made := ofLabel_of_mem member
  have headAlone := head_object made
  unfold SameRoute at other
  cases part with
  | root label => cases notRoot
  | type label =>
      obtain ⟨_, c, _, known, _, _, _, written⟩ :=
        (outcome_construct constructor headAlone).mp alone
      rw [withOrdinary_object made] at written
      cases written
      refine ⟨rfl, ?_⟩
      by_cases isType : ∃ first, whole.hostParts.head? = some (.type first)
      · obtain ⟨first, head⟩ := isType
        simp only [constructor, head] at other
        obtain ⟨_, d, _, knownFirst, _, _, _, rfl⟩ :=
          (outcome_construct constructor head).mp outcome
        refine ⟨_, rfl, withOrdinary_not_covers (.objects _) rfl ?_ ?_⟩
        · intro listed
          cases FinSet.mem_singleton.mp listed
          exact other (knownFirst.trans known.symm)
        · intro listed
          cases mem_labels_ordinaryResult listed
      · obtain ⟨_, rfl⟩ :=
          (outcome_construct_ordinary constructor (not_exists.mp isType)).mp outcome
        refine ⟨_, rfl, not_covers_object ordinaryResult_wellFormed ordinaryResult_known ?_⟩
        intro listed
        cases mem_labels_ordinaryResult listed
  | object label =>
      have notType : ∀ first, (Value.object label).hostParts.head? ≠ some (.type first) := by
        intro first
        rw [show (Value.object label).hostParts.head? = _ from headAlone]
        nofun
      obtain ⟨_, written⟩ := (outcome_construct_ordinary constructor notType).mp alone
      cases written
      have made : ordinaryResult node operands = .object ⟨node.index, .object, none⟩ :=
        if_pos constructor
      rw [made]
      refine ⟨rfl, ?_⟩
      by_cases isType : ∃ first, whole.hostParts.head? = some (.type first)
      · obtain ⟨first, head⟩ := isType
        simp only [constructor, head, Bool.not_eq_false] at other
        obtain ⟨_, c, _, _, _, _, _, rfl⟩ := (outcome_construct constructor head).mp outcome
        refine ⟨_, rfl, ?_⟩
        unfold withOrdinary
        rw [if_pos other]
        refine not_covers_object (.objects _) rfl fun listed => ?_
        cases FinSet.mem_singleton.mp listed
      · cases head : whole.hostParts.head? with
        | none => simp only [constructor, head, not_true_eq_false] at other
        | some firstPart =>
            cases firstPart with
            | root first | object first => simp only [constructor, head, not_true_eq_false] at other
            | type first => exact absurd ⟨first, head⟩ isType

/-- On another route, some table makes a method call write a value that does not cover the other
    one. -/
theorem method_not_covers (held : m.state.registers.get? r = some whole)
    (constructor : operands.constructor = false) {name : String}
    (property : operands.property = some name) (other : ¬ SameRoute operands whole part) :
    ∃ table : ClassTable, table.All Value.Built ∧ ∃ v,
      outcome? setting node operands (m.withHost table) whole = some (some v) ∧
      outcome? setting node operands ((m.withHost table).narrow r part.label)
        (.object part.label) = some (some marked) ∧ ¬ v.Covers marked := by
  have made := ofLabel_of_mem member
  obtain ⟨goesOn, c, named⟩ := of_alone_method made notRoot constructor property alone
  have readable := (outcome_iff.mp outcome).1
  have listed : ∀ part ∈ whole.hostParts, ∀ c, part.className = some c →
      c ∈ whole.hostParts.filterMap HostPart.className :=
    fun part isPart c named => List.mem_filterMap.mpr ⟨part, isPart, named⟩
  unfold SameRoute at other
  cases head : whole.hostParts.head? with
  | none =>
      rw [List.head?_eq_none_iff.mp head] at member
      cases member
  | some firstPart =>
      have isFirst : firstPart ∈ whole.hostParts := List.mem_of_mem_head? head
      cases firstPart with
      | root first =>
          -- The root does not ask the table, so any answer for the label is missed.
          obtain ⟨v, full, notCovers⟩ := outcome_root constructor property head goesOn outcome
          exact ⟨answering (whole.hostParts.filterMap HostPart.className) name marked
            fun _ => marked,
            answering_built (.objects _) fun _ => .objects _, v, full _,
            alone_answering made notRoot held readable goesOn constructor property named
              (listed part member c named) (fun _ => rfl) (fun _ => rfl), notCovers⟩
      | object first =>
          have isType : part.isType = true := by
            cases part with
            | root label => cases notRoot
            | type label => rfl
            | object label => simp only [constructor, head, not_true_eq_false] at other
          obtain ⟨_, d, _, namedFirst, _, _⟩ :=
            (outcome_method constructor property head).mp outcome
          refine ⟨answering (whole.hostParts.filterMap HostPart.className) name .null
            fun _ => marked,
            answering_built .null fun _ => .objects _, withOrdinary node operands whole .null,
            ?_, ?_, null_not_covers_marked⟩
          · exact (outcome_method constructor property head).mpr ⟨readable, d, .null, namedFirst,
              methodAnswer_null listed member notRoot named, (finish_method rfl).mpr ⟨goesOn, rfl⟩⟩
          · refine alone_answering made notRoot held readable goesOn constructor property named
              (listed part member c named) (fun isObject => ?_) (fun _ => rfl)
            cases part with
            | object label => cases isType
            | root label | type label => cases isObject
      | type first =>
          obtain ⟨_, d, _, namedFirst, _, _, _⟩ :=
            (outcome_static constructor property head).mp outcome
          have isListed := listed _ isFirst d namedFirst
          refine ⟨answering (whole.hostParts.filterMap HostPart.className) name marked
            fun e => if e = d then .null else marked,
            answering_built (.objects _) (fun e => ?_), withOrdinary node operands whole .null,
            ?_, ?_, null_not_covers_marked⟩
          · split
            · exact .null
            · exact .objects _
          · refine (outcome_static constructor property head).mpr
              ⟨readable, d, .null, namedFirst, ?_, goesOn, rfl⟩
            exact (static_answering isListed).trans (by rw [if_pos rfl])
          · refine alone_answering made notRoot held readable goesOn constructor property named
              (listed part member c named) (fun _ => rfl) (fun isType => if_neg ?_)
            rintro rfl
            cases part with
            | root label | object label => cases isType
            | type label =>
                simp only [constructor, head] at other
                exact other (namedFirst.trans named.symm)

theorem exists_covers (built : m.host.All Value.Built) (receiver : receiver? operands = some r)
    (same : SameRoute operands whole part) (present : w.maybePresentOrUnknown = true) :
    ∃ v, o = some v ∧ v.Covers w := by
  cases constructor : operands.constructor with
  | true => exact construct_covers member notRoot outcome alone constructor same
  | false =>
      obtain ⟨name, property⟩ := property_of_receiver constructor receiver
      exact method_covers member notRoot outcome alone (built.mono fun _ => Value.Built.wellFormed)
        constructor property same present

theorem exists_not_covers (built : m.host.All Value.Built)
    (held : m.state.registers.get? r = some whole) (receiver : receiver? operands = some r)
    (other : ¬ SameRoute operands whole part) :
    ∃ (table : ClassTable) (w' : Value), table.All Value.Built ∧
      w'.maybePresentOrUnknown = true ∧ ∃ v,
      outcome? setting node operands (m.withHost table) whole = some (some v) ∧
      outcome? setting node operands ((m.withHost table).narrow r part.label) (.object part.label) =
        some (some w') ∧ ¬ v.Covers w' := by
  cases constructor : operands.constructor with
  | true =>
      obtain ⟨present, v, rfl, notCovers⟩ :=
        construct_not_covers member notRoot outcome alone constructor other
      exact ⟨m.host, w, built, present, v, outcome, alone, notCovers⟩
  | false =>
      obtain ⟨name, property⟩ := property_of_receiver constructor receiver
      obtain ⟨table, builtTable, v, outcome', alone', notCovers⟩ :=
        method_not_covers member notRoot outcome alone held constructor property other
      exact ⟨table, marked, builtTable, rfl, v, outcome', alone', notCovers⟩

end Routes

/-! ### Covering a label -/

/-- Whatever the table, what a call writes covers each actual value that it would write for one
    label of the receiver alone. -/
def CoversPart (setting : Setting ClassTable) (node : Node) (r q : Register)
    (m : Machine ClassTable) (part : HostPart) : Prop :=
  ∀ (table : ClassTable) (w : Value), table.All Value.Built →
    Succeeds setting node (m.withHost table) →
    Returns setting node q ((m.withHost table).narrow r part.label) w →
    w.maybePresentOrUnknown = true →
    ∃ v, Returns setting node q (m.withHost table) v ∧ v.Covers w

/-- With some table the call succeeds on the receiver, and on the label alone it writes a value. -/
def Callable (setting : Setting ClassTable) (node : Node) (r q : Register) (m : Machine ClassTable)
    (part : HostPart) : Prop :=
  ∃ (table : ClassTable) (w : Value), table.All Value.Built ∧
    Succeeds setting node (m.withHost table) ∧
    Returns setting node q ((m.withHost table).narrow r part.label) w

/-- A call covers a host label of its receiver exactly if it takes the route of the call on that
    label alone, or if there is no table with which it succeeds and the other writes a value. -/
theorem call_covers_iff (host : setting.host = ClassTable.host)
    (operation : node.operation = .call operands) (result : operands.result = some q)
    (receiver : receiver? operands = some r) (held : m.state.registers.get? r = some whole)
    (member : part ∈ whole.hostParts) (notRoot : part.isRoot = false) :
    CoversPart setting node r q m part ↔
      (Callable setting node r q m part → SameRoute operands whole part) := by
  have heldWith : ∀ table, (m.withHost table).state.registers.get? r = some whole := fun _ => held
  have heldAlone : ∀ table, ((m.withHost table).narrow r part.label).state.registers.get? r =
      some (.object part.label) := fun _ => FinMap.get?_insert_self _ _ _
  constructor
  · rintro covers ⟨table, w, built, succeeds, returns⟩
    by_contra other
    obtain ⟨o, outcome⟩ :=
      (succeeds_iff host operation receiver (heldWith table) result).mp succeeds
    have alone := (returns_iff host operation receiver (heldAlone table) result).mp returns
    obtain ⟨table', w', built', present, v, outcome', alone', notCovers⟩ :=
      exists_not_covers member notRoot outcome alone built (heldWith table) receiver other
    obtain ⟨u, returned, covered⟩ := covers table' w' built'
      ((succeeds_iff host operation receiver (heldWith table') result).mpr ⟨_, outcome'⟩)
      ((returns_iff host operation receiver (heldAlone table') result).mpr alone') present
    have outcomeAgain :=
      (returns_iff host operation receiver (heldWith table') result).mp returned
    obtain rfl : v = u := Option.some.inj (Option.some.inj (outcome'.symm.trans outcomeAgain))
    exact notCovers covered
  · intro route table w built succeeds returns present
    have same := route ⟨table, w, built, succeeds, returns⟩
    obtain ⟨o, outcome⟩ :=
      (succeeds_iff host operation receiver (heldWith table) result).mp succeeds
    have alone := (returns_iff host operation receiver (heldAlone table) result).mp returns
    obtain ⟨v, rfl, covered⟩ :=
      exists_covers member notRoot outcome alone built receiver same present
    exact ⟨v, (returns_iff host operation receiver (heldWith table) result).mpr outcome, covered⟩

/-! ### Two calls -/

/-- A program of two blocks, one after the other. -/
def twoBlocks : Setting ClassTable where
  host := ClassTable.host
  program := (do
    let (second, fg) ← FlowGraph.initial.newBlock 0
    fg.addEdge 0 second).toOption.getD .initial
  options := {}

/-- The classes `A` and `B`, with results of a method that differ. -/
def twoClasses : ClassTable :=
  (ClassTable.empty.addClass { name := "A", methods := FinMap.insert ∅ "bar" .anyNumber }).addClass
    { name := "B", methods := FinMap.insert ∅ "bar" .anyString }

theorem twoClasses_built : twoClasses.All Value.Built := by
  refine ((ClassTable.All.empty _).addClass ⟨nofun, ?_, nofun⟩).addClass ⟨nofun, ?_, nofun⟩
  all_goals
    intro name v listed
    rw [FinMap.get?_insert] at listed
    split at listed
  · cases listed
    exact .anyNumber
  · cases listed
  · cases listed
    exact .anyString
  · cases listed

/-- A machine with one value in the first register. -/
def holding (v : Value) : Machine ClassTable where
  interner := .initial
  host := twoClasses
  events := []
  state := { (State.initial .initial 0 .main false).1 with registers := FinMap.insert ∅ 0 v }
  pushes := []

/-- A value that may be the class `A` or the class `B`. -/
def eitherClass : Value :=
  .objects (.ofList [⟨1, .foreignType, some "A"⟩, ⟨2, .foreignType, some "B"⟩])

/-- Constructing a value that may be either of two classes gives an instance of the first only. -/
theorem construct_misses_class :
    Returns twoBlocks ⟨3, 0, .construct 1 0 []⟩ 1 (holding eitherClass)
      (.object ⟨3, .foreignObject, some "A"⟩) ∧
    Returns twoBlocks ⟨3, 0, .construct 1 0 []⟩ 1
      ((holding eitherClass).narrow 0 ⟨2, .foreignType, some "B"⟩)
      (.object ⟨3, .foreignObject, some "B"⟩) ∧
    ¬ (Value.object ⟨3, .foreignObject, some "A"⟩).Covers
      (.object ⟨3, .foreignObject, some "B"⟩) := by
  refine ⟨?_, ?_, by decide +kernel⟩
  · exact (returns_iff rfl rfl rfl rfl rfl).mpr (by decide +kernel)
  · exact (returns_iff rfl rfl rfl rfl rfl).mpr (by decide +kernel)

/-- A value that may be an instance of `A`, an instance of `B`, or null. -/
def eitherInstance : Value :=
  (Value.objects
    (.ofList [⟨1, .foreignObject, some "A"⟩, ⟨2, .foreignObject, some "B"⟩])).join .null

/-- A method call on either of two instances covers the second of them. -/
theorem method_covers_instance :
    Callable twoBlocks ⟨3, 0, .methodCall (some 1) 0 "bar" []⟩ 0 1 (holding eitherInstance)
      (.object ⟨2, .foreignObject, some "B"⟩) ∧
    CoversPart twoBlocks ⟨3, 0, .methodCall (some 1) 0 "bar" []⟩ 0 1 (holding eitherInstance)
      (.object ⟨2, .foreignObject, some "B"⟩) := by
  have held : (holding eitherInstance).state.registers.get? 0 = some eitherInstance := rfl
  have member : HostPart.object ⟨2, .foreignObject, some "B"⟩ ∈ eitherInstance.hostParts := by
    decide +kernel
  have same : SameRoute ⟨some 1, some 0, some "bar", none, [], false⟩ eitherInstance
      (.object ⟨2, .foreignObject, some "B"⟩) := trivial
  refine ⟨⟨twoClasses, .anyString, twoClasses_built, ?_, ?_⟩, ?_⟩
  · exact (succeeds_iff rfl rfl rfl held rfl).mpr ⟨_, (by decide +kernel : _ = some (some
      ((Value.anyNumber.join .anyString).join .anyPrimitive)))⟩
  · exact (returns_iff rfl rfl rfl rfl rfl).mpr (by decide +kernel)
  · exact (call_covers_iff rfl rfl rfl rfl held member rfl).mpr fun _ => same

end Foreign

end ScriptHeap
