import ScriptHeap.Proofs.Transfer.Order

/-!
# What a program can name

The ordinary rules write the registers that the program names as results, and make objects under the
labels of its nodes and functions (`FlowGraph.results`, `FlowGraph.labels`). Contents within these
bounds stay within them (`Contents.Within.step`). Property keys are another matter: they can be put
together from known strings.
-/

namespace ScriptHeap

namespace FlowGraph

/-- The nodes of a program. -/
def nodes (program : FlowGraph) : List Node := program.blocks.flatMap Block.nodes

theorem mem_nodes {program : FlowGraph} {index : Nat} {block : Block}
    (found : program.block index = .ok block) : ∀ node ∈ block.nodes, node ∈ program.nodes :=
  fun _ inside => List.mem_flatMap.mpr ⟨block, mem_blocks found, inside⟩

/-- The labels under which the ordinary rules can store objects. -/
def labels (program : FlowGraph) : List Label :=
  .global :: (program.functions.flatMap fun f => [.activation f.index, .arguments f.index]) ++
    program.nodes.map Node.label

/-- The registers that nodes write. -/
def results (program : FlowGraph) : List Register :=
  program.nodes.filterMap fun node => node.operation.result?

variable {program : FlowGraph}

theorem activation_mem_labels {f : Function} (member : f ∈ program.functions) :
    .activation f.index ∈ program.labels := by
  simp only [labels, List.cons_append, List.mem_cons, List.mem_append, List.mem_flatMap]
  exact .inr (.inl ⟨f, member, .inl rfl⟩)

theorem arguments_mem_labels {f : Function} (member : f ∈ program.functions) :
    .arguments f.index ∈ program.labels := by
  simp only [labels, List.cons_append, List.mem_cons, List.mem_append, List.mem_flatMap]
  exact .inr (.inl ⟨f, member, .inr (.inl rfl)⟩)

theorem global_mem_labels : .global ∈ program.labels := by
  simp [labels]

/-- The objects that variables live in are among the labels of the program. -/
theorem variableLabel_mem_labels {f : Function} (member : f ∈ program.functions) (name : String) :
    f.variableLabel name ∈ program.labels := by
  unfold Function.variableLabel
  split
  · exact activation_mem_labels member
  · exact global_mem_labels

/-- The objects that nodes make are among the labels of the program. -/
theorem label_mem_labels {node : Node} (member : node ∈ program.nodes) :
    node.label ∈ program.labels := by
  simp only [labels, List.cons_append, List.mem_cons, List.mem_append, List.mem_map]
  exact .inr (.inr ⟨node, member, rfl⟩)

/-- The registers that nodes write are among the results of the program. -/
theorem mem_results {node : Node} (member : node ∈ program.nodes) {r : Register}
    (result : node.operation.result? = some r) : r ∈ program.results :=
  List.mem_filterMap.mpr ⟨node, member, result⟩

end FlowGraph

/-- A plain value whose labels the program can name. -/
def Value.Within (program : FlowGraph) (v : Value) : Prop :=
  v.Plain ∧ ∀ label ∈ v.labels, label ∈ program.labels

/-- What a value may hold in a program is closed under what rules do to values. -/
theorem Value.closed_within {program : FlowGraph} {label : Label}
    (member : label ∈ program.labels) : Closed (Within program) label where
  flags := fun _ known => ⟨.ofFlags known, nofun⟩
  string := fun s => ⟨.ofString s, nofun⟩
  object := ⟨.object label, fun _ held => FinSet.mem_singleton.mp held ▸ member⟩
  join := by
    rintro v w ⟨plain, labels⟩ ⟨plain', labels'⟩
    refine ⟨plain.join plain', fun other held => ?_⟩
    rw [join_eq plain.formed plain.known plain'.known] at held
    exact (FinSet.mem_union.mp held).elim (labels other) (labels' other)
  reflag := fun ⟨plain, labels⟩ any unknown => ⟨plain.reflag any unknown, labels⟩
  collapse := by
    rintro v ⟨plain, labels⟩
    rw [collapse_of_whole plain.whole]
    exact ⟨plain, labels⟩

namespace Contents

/-- The objects have labels that the program can name, and no scope. -/
def Placed (program : FlowGraph) (shapes : Lookup Label Shape) : Prop :=
  ∀ label shape, shapes label = some shape →
    label ∈ program.labels ∧ shape.scope = .known .empty

/-- Contents that use only what the program can name. -/
structure Within (program : FlowGraph) (c : Contents) : Prop where
  each : c.Each (Value.Within program)
  registers : ∀ r v, c.registers r = some v → r ∈ program.results
  placed : Placed program c.shapes

variable {program : FlowGraph} {node : Node} {c c' : Contents}

theorem Within.plain (within : c.Within program) : c.Each Value.Plain :=
  ⟨fun r v found => (within.each.registers r v found).1,
    fun label shape found slot => (within.each.shapes label shape found slot).1⟩

/-- A join stays within the program. -/
theorem Within.join {d : Contents} (within : c.Within program) (other : d.Within program) :
    (c.join d).Within program where
  each := Each.join (Value.closed_within FlowGraph.global_mem_labels) within.each other.each
  registers := by
    intro r v found
    have held : Lookup.join Value.join c.registers d.registers r = some v := found
    unfold Lookup.join at held
    cases own : c.registers r with
    | some w => exact within.registers r w own
    | none =>
        simp only [own] at held
        exact other.registers r v held
  placed := by
    intro label shape found
    have held : Lookup.join Shape.join c.shapes d.shapes label = some shape := found
    unfold Lookup.join at held
    cases own : c.shapes label with
    | none =>
        simp only [own] at held
        exact other.placed label shape held
    | some s =>
        obtain ⟨member, scope⟩ := within.placed label s own
        cases own' : d.shapes label with
        | none =>
            simp only [own, own', Option.some.injEq] at held
            exact ⟨member, held ▸ scope⟩
        | some t =>
            simp only [own, own', Option.some.injEq] at held
            refine ⟨member, ?_⟩
            split at held
            · exact held ▸ scope
            · rw [← held]
              show s.scope.join t.scope = _
              rw [scope, (other.placed label t own').2]
              rfl

theorem Within.formed (within : c.Within program) :
    c.registers.All Value.WellFormed ∧ c.shapes.All Shape.WellFormed :=
  ⟨fun r v found => (within.plain.registers r v found).formed,
    fun label shape found slot => (within.plain.shapes label shape found slot).formed⟩

theorem Covers.refl (c : Contents) : c.Covers c :=
  ⟨fun _ v found => ⟨v, found, .inl rfl⟩, fun _ shape found => ⟨shape, found, .inl rfl⟩⟩

/-- Within a program a join covers what was joined. -/
theorem Within.join_covers {d : Contents} (within : c.Within program) (other : d.Within program) :
    (c.join d).Covers d where
  registers := Lookup.covers_join_right Value.join_upperBound within.formed.1 other.formed.1
  shapes := Lookup.covers_join_right Shape.join_upperBound within.formed.2 other.formed.2

/-- Within a program covering is not lost by a further join. -/
theorem Covers.join {d e : Contents} (covers : c.Covers d) (within : c.Within program)
    (within' : d.Within program) (other : e.Within program) : (c.join e).Covers d where
  registers :=
    covers.registers.join Value.join_upperBound within.formed.1 within'.formed.1 other.formed.1
  shapes := covers.shapes.join Shape.join_upperBound within.formed.2 within'.formed.2 other.formed.2

/-- A change under labels of the program keeps objects in place, if it keeps scopes empty. -/
theorem Placed.change (placed : Placed program c.shapes) {labels : LabelSet}
    (inside : ∀ label ∈ labels, label ∈ program.labels) {f : Option Shape → Option Shape}
    (scopes : ∀ shape?, (∀ shape, shape? = some shape → shape.scope = .known .empty) →
      ∀ shape, f shape? = some shape → shape.scope = .known .empty) :
    Placed program (c.change labels f).shapes := by
  intro label shape found
  unfold Contents.change at found
  dsimp only at found
  split at found
  · rename_i member
    exact ⟨inside label member,
      scopes _ (fun old held => (placed label old held).2) shape found⟩
  · exact placed label shape found

theorem Placed.allocate (placed : Placed program c.shapes) {label : Label}
    (member : label ∈ program.labels) : Placed program (c.allocate label).shapes := by
  refine placed.change (fun other held => FinSet.mem_singleton.mp held ▸ member) ?_
  intro shape? scopes shape found
  cases found
  cases shape? with
  | none => rfl
  | some old =>
      show old.scope.join _ = _
      rw [scopes old rfl]
      rfl

theorem Placed.writeProperty (placed : Placed program c.shapes) {labels : LabelSet}
    (inside : ∀ label ∈ labels, label ∈ program.labels) (key : Key) (v : Value) :
    Placed program (c.writeProperty labels key v).shapes := by
  refine placed.change inside ?_
  intro shape? scopes shape found
  cases found
  cases shape? with
  | none => rfl
  | some old => exact scopes old rfl

theorem Placed.writeAnyProperty (placed : Placed program c.shapes) {labels : LabelSet}
    (inside : ∀ label ∈ labels, label ∈ program.labels) (v : Value) :
    Placed program (c.writeAnyProperty labels v).shapes := by
  refine placed.change inside ?_
  intro shape? scopes shape found
  obtain ⟨old, rfl, rfl⟩ := Option.map_eq_some_iff.mp found
  exact scopes old rfl

theorem Placed.writeVariable (placed : Placed program c.shapes) {f : Function}
    (member : f ∈ program.functions) (name : String) (v : Value) :
    Placed program (c.writeVariable f name v).shapes := by
  have inside : ∀ label ∈ (FinSet.singleton (f.variableLabel name) : LabelSet),
      label ∈ program.labels := fun _ held =>
    FinSet.mem_singleton.mp held ▸ FlowGraph.variableLabel_mem_labels member name
  have first := placed.writeProperty inside (.name name) v
  unfold Contents.writeVariable writeArgument
  split
  · exact first
  · split
    · exact first.writeProperty
        (fun _ held => FinSet.mem_singleton.mp held ▸ FlowGraph.arguments_mem_labels member) _ v
    · exact first

/-- A step of a node of the program stays within what the program can name. -/
theorem Within.step (within : c.Within program) (member : node ∈ program.nodes)
    (steps : Steps program node c c') : c'.Within program where
  each := steps.each (Value.closed_within (FlowGraph.label_mem_labels member)) within.each
  registers := by
    intro r v found
    by_cases result : node.operation.result? = some r
    · exact FlowGraph.mem_results member result
    · rw [steps.registers result] at found
      exact within.registers r v found
  placed := by
    have made := FlowGraph.label_mem_labels member
    cases steps with
    | constant | readVariable | binaryOperator | idle => exact within.placed
    | readProperty | call =>
        rw [shapes_write?]
        exact within.placed
    | writeVariable _ _ function =>
        exact within.placed.writeVariable (FlowGraph.mem_functions function) _ _
    | @writeProperty _ _ _ u v key _ object _ _ =>
        have inside := (within.each.registers _ _ object).2
        cases key with
        | none => exact within.placed.writeAnyProperty inside _
        | some key => exact within.placed.writeProperty inside key _
    | newObject => exact within.placed.allocate made
    | construct =>
        rw [shapes_write?]
        exact within.placed.allocate made

/-- A run of nodes of the program stays within it. -/
theorem Within.run {nodes : List Node} (within : c.Within program)
    (inside : ∀ node ∈ nodes, node ∈ program.nodes) (ran : c.run program nodes = .ok c') :
    c'.Within program := by
  induction nodes generalizing c with
  | nil =>
      cases ran
      exact within
  | cons node rest ih =>
      rw [run_cons] at ran
      obtain ⟨d, stepped, ran⟩ := of_bind_eq_ok ran
      have first := within.step (inside node List.mem_cons_self) (steps_of_step stepped)
      exact ih first (fun other member => inside other (List.mem_cons_of_mem _ member)) ran

end Contents

/-! ### Spots -/

/-- Where contents hold a value: in a register, in a slot of an object, or as a property that an
    object lists. -/
inductive Spot where
  | register (r : Register)
  | slot (label : Label) (slot : Slot)
  | listed (label : Label) (key : Key)

namespace Contents

/-- What contents hold at a spot. -/
def at? (c : Contents) : Spot → Option Value
  | .register r => c.registers r
  | .slot label slot => (c.shapes label).map fun shape => shape.getSlot slot
  | .listed label key => (c.shapes label).bind fun shape => shape.properties.get? key

variable {P : Value → Prop} {c d : Contents} {spot : Spot} {v : Value}

theorem at?_slot {label : Label} {shape : Shape} (found : c.shapes label = some shape)
    (slot : Slot) : c.at? (.slot label slot) = some (shape.getSlot slot) := by
  show (c.shapes label).map _ = _
  rw [found]
  rfl

theorem at?_listed {label : Label} {shape : Shape} (found : c.shapes label = some shape)
    (key : Key) : c.at? (.listed label key) = shape.properties.get? key := by
  show (c.shapes label).bind _ = _
  rw [found]
  rfl

theorem Each.at? (each : c.Each P) (held : c.at? spot = some v) : P v := by
  cases spot with
  | register r => exact each.registers r v held
  | slot label slot =>
      obtain ⟨shape, found, rfl⟩ := Option.map_eq_some_iff.mp held
      exact each.shapes label shape found slot
  | listed label key =>
      obtain ⟨shape, found, held⟩ := Option.bind_eq_some_iff.mp held
      rw [← Shape.get_of_listed held]
      exact each.shapes label shape found (.property key)

/-- Contents hold at each spot what they cover there, or more. -/
theorem Covers.at? (covers : c.Covers d) (plain : d.Each Value.Plain)
    (held : d.at? spot = some v) : ∃ w, c.at? spot = some w ∧ w.Absorbs v := by
  have shapes : ∀ {label shape}, d.shapes label = some shape →
      ∃ shape', c.shapes label = some shape' ∧ shape'.Absorbs shape := by
    intro label shape found
    obtain ⟨shape', found', same | above⟩ := covers.shapes label shape found
    · refine ⟨shape', found', ?_⟩
      rw [same]
      refine Shape.absorbs_iff.mpr ⟨fun _ => id, fun slot => ?_, Scope.join_self _⟩
      exact (plain.shapes label shape found slot).absorbs_self
    · exact ⟨shape', found', above⟩
  cases spot with
  | register r =>
      obtain ⟨w, found, same | above⟩ := covers.registers r v held
      · exact ⟨w, found, same ▸ (plain.registers r v held).absorbs_self⟩
      · exact ⟨w, found, above⟩
  | slot label slot =>
      obtain ⟨shape, found, rfl⟩ := Option.map_eq_some_iff.mp held
      obtain ⟨shape', found', above⟩ := shapes found
      exact ⟨shape'.getSlot slot, at?_slot found' slot, (Shape.absorbs_iff.mp above).2.1 slot⟩
  | listed label key =>
      obtain ⟨shape, found, held⟩ := Option.bind_eq_some_iff.mp held
      obtain ⟨shape', found', above⟩ := shapes found
      obtain ⟨keys, slots, -⟩ := Shape.absorbs_iff.mp above
      obtain ⟨w, held'⟩ := FinMap.contains_eq_true_iff.mp
        (keys key (FinMap.contains_eq_true_iff.mpr ⟨v, held⟩))
      refine ⟨w, (at?_listed found' key).trans held', ?_⟩
      rw [← Shape.get_of_listed held, ← Shape.get_of_listed held']
      exact slots (.property key)

end Contents

end ScriptHeap
