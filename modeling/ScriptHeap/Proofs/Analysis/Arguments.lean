import Mathlib.Data.List.GetD
import ScriptHeap.Proofs.Analysis.Consistency
import ScriptHeap.Proofs.Analysis.MustFacts
import ScriptHeap.Proofs.Analysis.Outline
import ScriptHeap.Proofs.Program.Builder

/-!
# Parameters and the `arguments` object

A parameter of a function is a property of its activation object, and its value is a property of its
`arguments` object as well. Both are set when the function is entered, and a variable that is
written is written to both. No register ever refers to one of the two objects, so nothing else
writes to them, and joins join both in the same way: in the entry states of the blocks of a
function, the parameter and its argument are equal (`Analysis.parameters_aliased`).

This needs a program whose functions stand under their indices and own the blocks in which they are
entered. Programs that are put together by the methods of a flow graph are of this kind; others need
not be.
-/

namespace ScriptHeap

open Fallible

/-! ### Slots -/

namespace Contents

/-- What a property holds, if its label has an object. -/
def slot? (c : Contents) (label : Label) (key : Key) : Option Value :=
  (c.shapes label).map fun shape => shape.get key

variable {c d : Contents} {label written : Label} {key other : Key} {v : Value}

theorem slot?_congr (same : c.shapes label = d.shapes label) :
    c.slot? label key = d.slot? label key := by
  rw [slot?, slot?, same]

/-- Slots are joined one by one, also where an object is left out of the join because it is the same
    on both sides: a known value is the join of itself with itself. -/
theorem slot?_join (consistent : c.Consistent) :
    (c.join d).slot? label key =
      Option.merge Value.join (c.slot? label key) (d.slot? label key) := by
  show Option.map _ (c.shapes.join Shape.join d.shapes label) = _
  unfold slot? Lookup.join
  cases left : c.shapes label with
  | none => cases d.shapes label <;> rfl
  | some shape =>
      cases d.shapes label with
      | none => rfl
      | some shape' =>
          have known : (shape.get key).isUnknown = false :=
            (consistent.slots label shape left (.property key)).plain.known
          show some ((if shape = shape' then shape else shape.join shape').get key) =
            some ((shape.get key).join (shape'.get key))
          split
          · rename_i same
            rw [← same, Value.join_same known]
          · rw [Shape.get_join]

theorem slot?_writeProperty (present : (c.shapes label).isSome = true) :
    (c.writeProperty (FinSet.singleton label) key v).slot? label other =
      if other = key then some v.joinModified else c.slot? label other := by
  obtain ⟨shape, found⟩ := Option.isSome_iff_exists.mp present
  have strong : (FinSet.singleton label).size = 1 := rfl
  have changed : (c.writeProperty (FinSet.singleton label) key v).shapes label =
      some (shape.store true key v.joinModified) := by
    unfold writeProperty change
    simp [FinSet.mem_singleton, found, strong]
  rw [slot?, slot?, changed, found, Option.map_some, Option.map_some, Shape.get_store, if_pos rfl]
  split <;> rfl

theorem shapes_writeProperty_of_ne (apart : label ≠ written) :
    (c.writeProperty (FinSet.singleton written) key v).shapes label = c.shapes label :=
  if_neg fun member => apart (FinSet.mem_singleton.mp member)

end Contents

/-! ### Frames -/

/-- The label of an object that holds what belongs to a call. -/
def Label.IsFrame (label : Label) : Prop :=
  label.kind = .activation ∨ label.kind = .arguments

theorem Label.isFrame_activation (function : Nat) : (activation function).IsFrame := .inl rfl

theorem Label.isFrame_arguments (function : Nat) : (arguments function).IsFrame := .inr rfl

/-- The value refers to no frame. -/
def Value.OffFrame (v : Value) : Prop :=
  ∀ label ∈ v.labels, ¬ label.IsFrame

theorem Value.closed_offFrame {label : Label} (plain : ¬ label.IsFrame) :
    Closed OffFrame label where
  flags := fun _ _ => nofun
  string := fun _ => nofun
  join := fun left right label member =>
    (mem_labels_of_join member).elim (left label) (right label)
  reflag := fun off _ _ => off
  collapse := id
  object := fun _ member => FinSet.mem_singleton.mp member ▸ plain

theorem Node.not_isFrame_label (node : Node) : ¬ node.label.IsFrame := nofun

theorem Label.not_isFrame_global : ¬ Label.global.IsFrame := nofun

theorem eq_of_toString_eq {i j : Nat} (same : toString i = toString j) : i = j := by
  rw [Nat.toString_eq_ofList_toDigits, Nat.toString_eq_ofList_toDigits] at same
  have digits := congrArg (fun s => Nat.ofDigitChars 10 s.toList 0) same
  simpa [String.toList_ofList, Nat.ofDigitChars_ten_toDigits] using digits

namespace Function

variable {f : Function} {name other : String} {i : Nat}

theorem getElem?_of_parameterIndex? (found : f.parameterIndex? name = some i) :
    f.parameters[i]? = some name := by
  obtain ⟨bound, same, _⟩ := List.findIdx?_eq_some_iff_getElem.mp found
  rw [List.getElem?_eq_getElem bound, beq_iff_eq.mp same]

theorem exists_parameterIndex? (member : name ∈ f.parameters) :
    ∃ i, f.parameterIndex? name = some i := by
  rw [← Option.isSome_iff_exists, parameterIndex?, List.findIdx?_isSome]
  exact List.any_eq_true.mpr ⟨name, member, beq_self_eq_true name⟩

/-- Parameters of different names have different indices. -/
theorem eq_of_parameterIndex? (found : f.parameterIndex? name = some i)
    (found' : f.parameterIndex? other = some i) : name = other :=
  Option.some.inj ((getElem?_of_parameterIndex? found).symm.trans
    (getElem?_of_parameterIndex? found'))

theorem declares_of_parameterIndex? (found : f.parameterIndex? name = some i) :
    f.declares name = true := by
  rw [declares, found]
  rfl

end Function

namespace Contents

/-- A parameter and its argument hold the same, or neither of them has an object. -/
def InStep (c : Contents) (f : Function) : Prop :=
  ∀ name i, f.parameterIndex? name = some i →
    c.slot? (.activation f.index) (.name name) = c.slot? (.arguments f.index) (.name (toString i))

/-- The objects of a call are there. -/
structure HasFrame (c : Contents) (f : Function) : Prop where
  activation : (c.shapes (.activation f.index)).isSome = true
  arguments : (c.shapes (.arguments f.index)).isSome = true

variable {c c' d : Contents} {f g : Function} {name : String} {v : Value}

theorem InStep.congr (inStep : c.InStep f)
    (same : ∀ label : Label, label.IsFrame → label.node = f.index →
      d.shapes label = c.shapes label) : d.InStep f := by
  intro name i parameter
  rw [slot?_congr (same _ (Label.isFrame_activation f.index) rfl),
    slot?_congr (same _ (Label.isFrame_arguments f.index) rfl)]
  exact inStep name i parameter

theorem InStep.join (consistent : c.Consistent) (left : c.InStep f) (right : d.InStep f) :
    (c.join d).InStep f := by
  intro name i parameter
  rw [slot?_join consistent, slot?_join consistent, left name i parameter, right name i parameter]

theorem shapes_writeArgument_of_ne {label : Label} (apart : label ≠ .arguments g.index) :
    (c.writeArgument g name v).shapes label = c.shapes label := by
  unfold writeArgument
  split
  · rfl
  · split
    · exact shapes_writeProperty_of_ne apart
    · rfl

/-- A variable is written to the objects of its function or to the global object. -/
theorem shapes_writeVariable_of_ne {label : Label} (frame : label.IsFrame)
    (other : label.node ≠ g.index) : (c.writeVariable g name v).shapes label = c.shapes label := by
  have notArguments : label ≠ .arguments g.index := by
    rintro rfl
    exact other rfl
  have notVariable : label ≠ g.variableLabel name := by
    rintro rfl
    unfold Function.variableLabel at frame other
    split at frame
    · simp_all [Label.activation]
    · rcases frame with kind | kind <;> cases kind
  exact (shapes_writeArgument_of_ne notArguments).trans (shapes_writeProperty_of_ne notVariable)

section Parameter

variable {parameter : String} {i : Nat} (frame : c.HasFrame f)
  (found : f.parameterIndex? parameter = some i)

include frame found

theorem slot?_activation_writeVariable (notMain : f.isMain = false) :
    (c.writeVariable f name v).slot? (.activation f.index) (.name parameter) =
      if parameter = name then some v.joinModified
      else c.slot? (.activation f.index) (.name parameter) := by
  have apart : Label.activation f.index ≠ .arguments f.index := by
    simp [Label.activation, Label.arguments]
  refine (slot?_congr (shapes_writeArgument_of_ne apart)).trans ?_
  cases declared : f.declares name with
  | true =>
      have holder : f.variableLabel name = .activation f.index := by
        simp [Function.variableLabel, notMain, declared]
      rw [holder, slot?_writeProperty frame.activation]
      simp only [Key.name.injEq]
  | false =>
      have other : parameter ≠ name := by
        rintro rfl
        rw [Function.declares_of_parameterIndex? found] at declared
        cases declared
      have elsewhere : Label.activation f.index ≠ f.variableLabel name := by
        simp [Function.variableLabel, declared, Label.activation, Label.global]
      rw [if_neg other]
      exact slot?_congr (shapes_writeProperty_of_ne elsewhere)

theorem slot?_arguments_writeVariable :
    (c.writeVariable f name v).slot? (.arguments f.index) (.name (toString i)) =
      if parameter = name then some v.joinModified
      else c.slot? (.arguments f.index) (.name (toString i)) := by
  have apart : Label.arguments f.index ≠ f.variableLabel name := by
    unfold Function.variableLabel
    split <;> simp [Label.arguments, Label.activation, Label.global]
  have first : (c.writeProperty (FinSet.singleton (f.variableLabel name)) (.name name) v).shapes
      (.arguments f.index) = c.shapes (.arguments f.index) := shapes_writeProperty_of_ne apart
  have present := first.symm ▸ frame.arguments
  unfold writeVariable writeArgument
  cases known : f.parameterIndex? name with
  | none =>
      have other : parameter ≠ name := by
        rintro rfl
        cases found.symm.trans known
      rw [if_neg other]
      exact slot?_congr first
  | some j =>
      have same : toString i = toString j ↔ parameter = name := by
        constructor
        · intro text
          cases eq_of_toString_eq text
          exact Function.eq_of_parameterIndex? found known
        · rintro rfl
          cases found.symm.trans known
          rfl
      dsimp only
      rw [if_pos present, slot?_writeProperty present, slot?_congr first]
      simp only [Key.name.injEq, same]

end Parameter

theorem InStep.writeVariable (inStep : c.InStep f) (notMain : f.isMain = false)
    (frame : c.HasFrame f) : (c.writeVariable f name v).InStep f := by
  intro parameter i found
  rw [slot?_activation_writeVariable frame found notMain, slot?_arguments_writeVariable frame found,
    inStep parameter i found]

/-- A step other than the write of a variable leaves frames alone. -/
theorem Steps.shapes_frame {program : FlowGraph} {node : Node} (steps : Steps program node c c')
    (off : Lookup.All Value.OffFrame c.registers)
    (kind : ∀ name r, node.operation ≠ .writeVariable name r) {label : Label}
    (frame : label.IsFrame) : c'.shapes label = c.shapes label := by
  have notMade : label ∉ FinSet.singleton node.label := by
    intro member
    rw [FinSet.mem_singleton.mp member] at frame
    exact node.not_isFrame_label frame
  cases steps with
  | constant | readVariable | binaryOperator | idle => rfl
  | readProperty | call => rw [shapes_write?]
  | writeVariable operation => exact absurd operation (kind _ _)
  | @writeProperty _ _ _ u _ key operation object =>
      have apart : label ∉ u.labels := fun member => off _ u object label member frame
      cases key <;> exact if_neg apart
  | newObject => exact if_neg notMade
  | construct =>
      rw [shapes_write?]
      exact if_neg notMade

theorem Steps.function {program : FlowGraph} {node : Node} (steps : Steps program node c c') :
    c'.function = c.function := by
  have written : ∀ {d : Contents} {r : Option Register} {w : Value},
      (d.write? r w).function = d.function := by
    intro d r w
    cases r <;> rfl
  cases steps with
  | constant | readVariable | binaryOperator | idle | newObject => rfl
  | readProperty | call | construct => exact written
  | writeVariable =>
      unfold Contents.writeVariable
      rw [writeArgument_frame]
      rfl
  | @writeProperty _ _ _ _ _ key => cases key <;> rfl

end Contents

/-! ### Programs -/

namespace FlowGraph

/-- Every function stands under its index, and the block in which it is entered is its own. -/
def OwnsEntries (fg : FlowGraph) : Prop :=
  ∀ i f, fg.functions[i]? = some f → f.index = i ∧
    ∃ entry, fg.graph.vertices.get? f.entry = some entry ∧ entry.function = i

/-- Control stays in the function that a block belongs to. -/
def StaysInside (fg : FlowGraph) : Prop :=
  ∀ b next, fg.Leads b next → ∀ block target, fg.block b = .ok block →
    fg.block next = .ok target → target.function = block.function

/-- No function declares a variable under the name of a parameter. -/
def ParametersApart (fg : FlowGraph) : Prop :=
  ∀ f ∈ fg.functions, ∀ name ∈ f.parameters, name ∉ f.locals

variable {fg : FlowGraph} {f g : Function}

theorem OwnsEntries.function_index (owns : fg.OwnsEntries) (member : f ∈ fg.functions) :
    fg.function f.index = .ok f := by
  obtain ⟨i, found⟩ := List.mem_iff_getElem?.mp member
  rw [(owns i f found).1]
  exact function_eq_ok_iff.mpr found

theorem OwnsEntries.eq_of_index (owns : fg.OwnsEntries) (member : f ∈ fg.functions)
    (member' : g ∈ fg.functions) (same : f.index = g.index) : f = g := by
  have found := owns.function_index member
  rw [same, owns.function_index member'] at found
  exact (Except.ok.inj found).symm

theorem OwnsEntries.exists_entry (owns : fg.OwnsEntries) (member : f ∈ fg.functions) :
    ∃ block, fg.block f.entry = .ok block ∧ block.function = f.index := by
  obtain ⟨i, found⟩ := List.mem_iff_getElem?.mp member
  obtain ⟨index, entry, held, function⟩ := owns i f found
  exact ⟨entry, block_eq_ok_iff.mpr held, function.trans index.symm⟩

/-- Control stays in a function if it does so from each block that has successors. -/
theorem StaysInside.of_successors
    (each : ∀ entry ∈ fg.graph.successors.toList, ∀ next ∈ entry.2.toList,
      (fg.graph.vertices.get? next).map Block.function =
        (fg.graph.vertices.get? entry.1).map Block.function) : fg.StaysInside := by
  intro b next leads block target held held'
  rw [leads_iff] at leads
  cases found : fg.graph.successors.get? b with
  | none =>
      rw [found] at leads
      exact absurd leads (FinSet.not_mem_empty next)
  | some set =>
      rw [found] at leads
      have same := each (b, set) (FinMap.mem_toList_iff.mpr found) next
        (FinSet.mem_toList.mpr leads)
      rw [get?_of_block held, get?_of_block held'] at same
      exact Option.some.inj same

theorem Assembled.ownsEntries (assembled : fg.Assembled) : fg.OwnsEntries :=
  assembled.owned.functions

/-- In an assembled flow graph control stays in a function if the edges do. -/
theorem Assembled.staysInside (assembled : fg.Assembled)
    (edges : ∀ edge ∈ fg.graph.edges,
      fg.functionOfBlock edge.head = fg.functionOfBlock edge.tail) : fg.StaysInside := by
  intro b next leads block target held held'
  have owner : ∀ {b block}, fg.block b = .ok block →
      ∃ f, fg.functionOfBlock b = .ok f ∧ f.index = block.function := by
    intro b block held
    have bound := (assembled.owned.blocks b block (get?_of_block held)).2
    have found := List.getElem?_eq_getElem bound
    refine ⟨_, ?_, (assembled.owned.functions _ _ found).1⟩
    rw [functionOfBlock, held]
    exact function_eq_ok_iff.mpr found
  obtain ⟨f, first, index⟩ := owner held
  obtain ⟨g, second, index'⟩ := owner held'
  have same := edges ⟨b, next⟩ ((assembled.alongEdges b next).mp leads)
  rw [first, second] at same
  rw [← index, ← index', Except.ok.inj same]

end FlowGraph

namespace Contents

/-- What holds of contents at a point: they belong to the function of the block, values refer to no
    frame, and the parameters of every function are in step with its arguments. -/
structure Aliased (program : FlowGraph) (point : ProgramPoint) (c : Contents) : Prop where
  located : ∀ block, program.block point.block = .ok block → c.function = block.function
  consistent : c.Consistent
  off : c.Each Value.OffFrame
  inStep : ∀ f ∈ program.functions, f.isMain = false → c.InStep f

/-- The function that the contents belong to has its frame as well. -/
structure Framed (program : FlowGraph) (point : ProgramPoint) (c : Contents) : Prop
    extends Aliased program point c where
  own : ∀ f, program.function c.function = .ok f → f.isMain = false → c.HasFrame f

variable {program : FlowGraph} {point : ProgramPoint} {node : Node} {c c' d : Contents}

theorem HasFrame.join {f : Function} (frame : c.HasFrame f) : (c.join d).HasFrame f where
  activation := by simp [Contents.join, Lookup.isSome_join, frame.activation]
  arguments := by simp [Contents.join, Lookup.isSome_join, frame.arguments]

theorem HasFrame.of_covers {f : Function} (frame : d.HasFrame f) (covers : c.Covers d) :
    c.HasFrame f := by
  have grows : ∀ label, (d.shapes label).isSome = true → (c.shapes label).isSome = true := by
    intro label held
    obtain ⟨shape, found⟩ := Option.isSome_iff_exists.mp held
    obtain ⟨_, kept, _⟩ := covers.shapes label shape found
    exact Option.isSome_iff_exists.mpr ⟨_, kept⟩
  exact ⟨grows _ frame.activation, grows _ frame.arguments⟩

theorem Aliased.join (left : c.Aliased program point) (right : d.Aliased program point) :
    (c.join d).Aliased program point where
  located := left.located
  consistent := left.consistent.join right.consistent
  off := Each.join (Value.closed_offFrame Label.not_isFrame_global) left.off right.off
  inStep := fun f member notMain =>
    .join left.consistent (left.inStep f member notMain) (right.inStep f member notMain)

theorem Framed.join (left : c.Framed program point) (right : d.Aliased program point) :
    (c.join d).Framed program point where
  toAliased := left.toAliased.join right
  own := fun f found notMain => (left.own f found notMain).join

/-- A step keeps parameters in step with arguments. -/
theorem Steps.inStep (owns : program.OwnsEntries) (steps : Steps program node c c')
    (framed : c.Framed program point) {f : Function} (member : f ∈ program.functions)
    (notMain : f.isMain = false) : c'.InStep f := by
  have before := framed.inStep f member notMain
  by_cases writes : ∃ name r, node.operation = .writeVariable name r
  · obtain ⟨name, r, operation⟩ := writes
    cases steps with
    | @writeVariable _ _ v g _ _ function =>
        by_cases same : f.index = g.index
        · cases owns.eq_of_index member (FlowGraph.mem_functions function) same
          exact before.writeVariable notMain (framed.own f function notMain)
        · exact before.congr fun label frame node =>
            shapes_writeVariable_of_ne frame fun index => same (node.symm.trans index)
    | idle kind => simp [operation, Operation.kind] at kind
    | _ => simp_all
  · simp only [not_exists] at writes
    exact before.congr fun label frame _ => steps.shapes_frame framed.off.registers writes frame

theorem Steps.framed (owns : program.OwnsEntries) (steps : Steps program node c c')
    (framed : c.Framed program point) : c'.Framed program point where
  located := fun block held => steps.function.trans (framed.located block held)
  consistent := steps.consistent framed.consistent
  off := steps.each (Value.closed_offFrame node.not_isFrame_label) framed.off
  inStep := fun _ => steps.inStep owns framed
  own := by
    intro f found notMain
    rw [steps.function] at found
    have frame := framed.own f found notMain
    exact ⟨steps.isSome frame.activation, steps.isSome frame.arguments⟩

theorem Framed.run (owns : program.OwnsEntries) {nodes : List Node}
    (framed : c.Framed program point) (ran : c.run program nodes = .ok d) :
    d.Framed program point := by
  induction nodes generalizing c with
  | nil =>
      cases ran
      exact framed
  | cons node rest ih =>
      rw [run_cons] at ran
      obtain ⟨e, stepped, later⟩ := of_bind_eq_ok ran
      exact ih ((steps_of_step stepped).framed owns framed) later

end Contents

/-! ### Start states -/

/-- What a key holds after many writes that all write the same to it. -/
theorem Shape.get_foldl_set {α : Type} {key : α → Key} {value : α → Value} {k : Key} {v : Value}
    (items : List α) {shape : Shape} (same : ∀ item ∈ items, key item = k → value item = v)
    (found : shape.get k = v ∨ ∃ item ∈ items, key item = k) :
    (items.foldl (fun shape item => shape.set (key item) (value item)) shape).get k = v := by
  induction items generalizing shape with
  | nil => exact found.resolve_right (by rintro ⟨_, ⟨⟩, _⟩)
  | cons item rest ih =>
      obtain ⟨first, later⟩ := List.forall_mem_cons.mp same
      refine ih later ?_
      rw [get_set]
      by_cases here : k = key item
      · rw [if_pos here]
        exact .inl (first here.symm)
      · rw [if_neg here]
        refine found.imp_right ?_
        rintro ⟨other, member, named⟩
        rcases List.mem_cons.mp member with rfl | member
        · exact absurd named.symm here
        · exact ⟨other, member, named⟩

namespace State

variable {f : Function} {v : Value}

/-- A parameter holds the argument, if all arguments are the same. -/
theorem get_activationShape (apart : ∀ name ∈ f.parameters, name ∉ f.locals) {name : String}
    (member : name ∈ f.parameters) :
    (activationShape f (List.replicate f.parameters.length v)).get (.name name) =
      v.joinModified := by
  refine Shape.get_foldl_set _ ?_ (.inr ?_)
  · rintro entry listed named
    rcases List.mem_append.mp listed with parameter | declared
    · obtain ⟨⟨other, i⟩, inside, rfl⟩ := List.mem_map.mp parameter
      have below := (List.mem_zipIdx inside).2.1
      simp only [List.getD_replicate _ (by simpa using below)]
    · obtain ⟨other, inside, rfl⟩ := List.mem_map.mp declared
      cases named
      exact absurd inside (apart _ member)
  · obtain ⟨i, found⟩ := List.mem_iff_getElem?.mp member
    refine ⟨_, List.mem_append_left _ (List.mem_map_of_mem (a := (name, i)) ?_), rfl⟩
    simpa [List.mem_zipIdx_iff_getElem?] using found

theorem get_argumentsShape {i : Nat} (below : i < f.parameters.length) :
    (argumentsShape f (List.replicate f.parameters.length v)).get (.name (toString i)) =
      v.joinModified := by
  refine Shape.get_foldl_set _ ?_ (.inr ⟨i, List.mem_range.mpr below, rfl⟩)
  intro j listed _
  rw [List.getD_replicate _ (List.mem_range.mp listed)]

theorem shapes_initial_frame {label : Label} (frame : label.IsFrame) (function : Nat) :
    (Contents.initial function).shapes label = none := by
  refine if_neg ?_
  rintro rfl
  exact Label.not_isFrame_global frame

/-- A function that is entered has its own frame and no other. -/
theorem shapes_entered_frame (notMain : f.isMain = false) (t : Interner)
    (copyOnWriteDisabled : Bool) {label : Label} (frame : label.IsFrame) :
    (entered t f copyOnWriteDisabled).contents.shapes label =
      if label = .arguments f.index then
        some (argumentsShape f (List.replicate f.parameters.length .anyPrimitive))
      else if label = .activation f.index then
        some (activationShape f (List.replicate f.parameters.length .anyPrimitive))
      else none := by
  have start : ∀ {label : Label}, label.IsFrame →
      (initial t f.index .main copyOnWriteDisabled).1.shapes label = none := by
    intro label frame
    rw [← shapes_initial_frame frame f.index,
      ← contents_initial t f.index .main copyOnWriteDisabled]
    rfl
  have other : Label.arguments f.index ≠ .activation f.index := by
    simp [Label.activation, Label.arguments]
  show (entered t f copyOnWriteDisabled).shapes label = _
  unfold entered enterFunction
  rw [if_neg (by simp [notMain])]
  simp only [shapes_newObject, if_neg other, start frame, start (Label.isFrame_activation f.index),
    start (Label.isFrame_arguments f.index)]
  rfl

theorem inStep_entered {program : FlowGraph} (owns : program.OwnsEntries)
    (apart : program.ParametersApart) (member : f ∈ program.functions) (notMain : f.isMain = false)
    {g : Function} (member' : g ∈ program.functions) (t : Interner) (copyOnWriteDisabled : Bool) :
    (entered t f copyOnWriteDisabled).contents.InStep g := by
  intro name i found
  unfold Contents.slot?
  rw [shapes_entered_frame notMain t _ (Label.isFrame_activation _),
    shapes_entered_frame notMain t _ (Label.isFrame_arguments _)]
  by_cases same : g.index = f.index
  · cases owns.eq_of_index member' member same
    have parameter := Function.getElem?_of_parameterIndex? found
    have other : Label.activation f.index ≠ .arguments f.index := by
      simp [Label.activation, Label.arguments]
    rw [if_neg other, if_pos rfl, if_pos rfl, Option.map_some, Option.map_some,
      get_activationShape (apart f member) (List.mem_of_getElem? parameter),
      get_argumentsShape (List.getElem?_eq_some_iff.mp parameter).1]
  · simp [Label.activation, Label.arguments, same]

theorem hasFrame_entered (notMain : f.isMain = false) (t : Interner) (copyOnWriteDisabled : Bool) :
    (entered t f copyOnWriteDisabled).contents.HasFrame f where
  activation := by
    rw [shapes_entered_frame notMain t _ (Label.isFrame_activation _)]
    simp [Label.activation, Label.arguments]
  arguments := by
    rw [shapes_entered_frame notMain t _ (Label.isFrame_arguments _)]
    simp

end State

/-! ### Runs -/

/-- The objects of a call are there, and each parameter equals its argument. -/
def State.Aliases (s : State) (f : Function) : Prop :=
  ∃ activation arguments : HeapObject, s.object? (.activation f.index) = some activation ∧
    s.object? (.arguments f.index) = some arguments ∧
    ∀ name ∈ f.parameters, ∃ i, f.parameterIndex? name = some i ∧
      activation.shape.get (.name name) = arguments.shape.get (.name (toString i))

/-- The entry states of the blocks of every function but the body have parameters that equal their
    arguments. -/
def FixedPoint.Aliases (program : FlowGraph) (result : FixedPoint) : Prop :=
  ∀ point s f, result.states.get? point = some s → program.functionOfBlock point.block = .ok f →
    f.isMain = false → s.Aliases f

theorem Contents.Framed.aliases {program : FlowGraph} {point : ProgramPoint} {s : State}
    (framed : s.contents.Framed program point) {f : Function}
    (owner : program.functionOfBlock point.block = .ok f) (notMain : f.isMain = false) :
    s.Aliases f := by
  obtain ⟨block, held, known⟩ := of_bind_eq_ok owner
  rw [← framed.located block held] at known
  have frame := framed.own f known notMain
  have inStep := framed.inStep f (FlowGraph.mem_functions known) notMain
  obtain ⟨_, shape⟩ := Option.isSome_iff_exists.mp frame.activation
  obtain ⟨activation, foundActivation, rfl⟩ := Option.map_eq_some_iff.mp shape
  obtain ⟨_, shape'⟩ := Option.isSome_iff_exists.mp frame.arguments
  obtain ⟨arguments, foundArguments, rfl⟩ := Option.map_eq_some_iff.mp shape'
  refine ⟨activation, arguments, foundActivation, foundArguments, fun name member => ?_⟩
  obtain ⟨i, parameter⟩ := Function.exists_parameterIndex? member
  have same := inStep name i parameter
  rw [Contents.slot?, Contents.slot?, shape, shape'] at same
  exact ⟨i, parameter, Option.some.inj same⟩

namespace Analysis

variable {σ : Type} {a : Analysis σ}

/-- A start state is that of a function, at the block in which the function is entered. -/
theorem of_mem_starts {main : Function} (body : a.setting.program.main = .ok main) {t : Interner}
    {push : Push} (member : push ∈ a.starts main t) :
    ∃ f ∈ a.setting.program.functions, push.point = ⟨f.entry, .main⟩ ∧
      push.state.function = f.index ∧
      (push.state.contents = .initial f.index ∨ f.isMain = false ∧ push = a.functionStart f t) ∧
      push.state.WellFormed ∧ push.state.context = push.point.context := by
  rcases List.mem_cons.mp member with rfl | member
  · exact ⟨main, FlowGraph.main_mem_functions body, rfl, rfl,
      .inl (State.contents_initial _ _ _ _), State.initial_wellFormed _ _ _ _, rfl⟩
  · obtain ⟨f, listed, rfl⟩ := List.mem_map.mp member
    obtain ⟨among, named⟩ := List.mem_filter.mp listed
    have function : (a.functionStart f t).state.function = f.index := by
      unfold functionStart State.entered State.enterFunction
      split <;> rfl
    exact ⟨f, among, rfl, function, .inr ⟨by simpa using named, rfl⟩,
      State.entered_wellFormed _ _ _, State.context_entered _ _ _⟩

section Start

variable (base : a.dispatcher = .base) (owns : a.setting.program.OwnsEntries)
  (apart : a.setting.program.ParametersApart) {main : Function}
  (body : a.setting.program.main = .ok main)

include base owns apart body

theorem aliased_starts {t : Interner} {push : Push} (member : push ∈ a.starts main t) :
    push.state.contents.Aliased a.setting.program push.point := by
  obtain ⟨f, among, point, function, contents, _⟩ := of_mem_starts body member
  refine ⟨fun block held => ?_, (persistent_consistent base).start main t push member, ?_,
    fun g listed _ => ?_⟩
  · obtain ⟨entry, own, same⟩ := owns.exists_entry among
    rw [point] at held
    cases own.symm.trans held
    exact function.trans same.symm
  · have closed := Value.closed_offFrame Label.not_isFrame_global
    rcases List.mem_cons.mp member with rfl | member
    · exact State.initial_each closed _ _ _ _
    · obtain ⟨_, _, rfl⟩ := List.mem_map.mp member
      exact State.entered_each closed _ _ _
  · rcases contents with start | ⟨notMain, rfl⟩
    · rw [start]
      intro name i _
      unfold Contents.slot?
      rw [State.shapes_initial_frame (Label.isFrame_activation _),
        State.shapes_initial_frame (Label.isFrame_arguments _)]
      rfl
    · exact State.inStep_entered owns apart among notMain listed t _

theorem framed_start (order : List Nat) (t : Interner) (point : ProgramPoint) (e : State)
    (found : (Entries.empty.flowAll order (a.starts main t)).states.get? point = some e) :
    e.contents.Framed a.setting.program point := by
  have aliased : e.contents.Aliased a.setting.program point := by
    refine Entries.forall_flowAll (Q := fun point e => e.contents.Aliased a.setting.program point)
      order (fun _ s holds => ?_) (fun _ e s own other => ?_) ?_
      (fun _ => aliased_starts base owns apart body) point e found
    · rwa [State.contents_freezeHeap]
    · rw [State.contents_join]
      exact own.join other
    · exact nofun
  refine ⟨aliased, fun f known notMain => ?_⟩
  -- The function that is entered at the point is the one that the state belongs to. If it is not
  -- the body, its own start state has flowed in too, whatever else has.
  obtain ⟨push, member, rfl⟩ := ((Entries.isSome_flowAll order _).mp
    (by rw [found]; rfl)).resolve_left (by rintro ⟨⟩)
  obtain ⟨g, among, point, _⟩ := of_mem_starts body member
  obtain ⟨entry, held, function⟩ := owns.exists_entry among
  have own : e.contents.function = g.index :=
    (aliased.located entry (by rw [point]; exact held)).trans function
  rw [own, owns.function_index among] at known
  obtain rfl : g = f := Except.ok.inj known
  have started : a.functionStart g t ∈ a.starts main t :=
    List.mem_cons_of_mem _ (List.mem_map_of_mem (List.mem_filter.mpr ⟨among, by simp [notMain]⟩))
  have formed : Entries.FormedPushes (a.starts main t) := by
    intro push member
    obtain ⟨_, _, _, _, _, formed⟩ := of_mem_starts body member
    exact formed
  obtain ⟨target, received, covers, _⟩ :=
    Entries.flowAll_receives order formed_empty formed _ started
  rw [point] at found
  cases found.symm.trans received
  exact (State.hasFrame_entered notMain t _).of_covers ⟨covers.registers, covers.shapes⟩

end Start

/-- By the ordinary rules, the state after a block has the contents that its nodes make, and is
    delivered to the successors. -/
theorem of_deliveries_base (base : a.dispatcher = .base) {point : ProgramPoint} {entry : State}
    {pushes : List Push} {w w' : World σ}
    (delivered : (a.deliveries point entry).run.run w = (.ok pushes, w')) :
    ∃ block, ∃ s : State, ∃ successors, a.setting.program.block point.block = .ok block ∧
      entry.contents.run a.setting.program block.nodes = .ok s.contents ∧
      a.setting.program.successors point.block = .ok successors ∧
      pushes = successors.map fun next => ⟨s.freezeHeap, ⟨next, point.context⟩⟩ := by
  obtain ⟨block, handover, m, held, ran, _, handsOn⟩ := of_deliveries delivered
  obtain ⟨done, failed⟩ :=
    Dispatcher.run_transferNodes_base a.setting block.index block.nodes ⟨w, entry, []⟩
  unfold Dispatcher.transferBlock at ran
  rw [base] at ran
  rw [ran] at done failed
  cases result : entry.contents.run a.setting.program block.nodes with
  | error e => cases failed e result
  | ok d =>
      obtain ⟨_, same, contents, silent⟩ := done d result
      cases same
      obtain ⟨successors, known, rfl⟩ := handsOn
      refine ⟨block, m.state, successors, held, ?_, known, ?_⟩
      · rw [result, contents]
      · rw [silent]
        rfl

/-- A visit leaves every entry state with the frame of its function: what is delivered has the frame
    of the visited block, and control stays in its function. -/
theorem framed_trace (base : a.dispatcher = .base) (owns : a.setting.program.OwnsEntries)
    (inside : a.setting.program.StaysInside) {order : List Nat} {entries last : Entries}
    {w w' : World σ} {visits : List (Visit σ)} (trace : a.Trace order entries w visits last w')
    (framed : ∀ point e, entries.states.get? point = some e →
      e.contents.Framed a.setting.program point) :
    ∀ point e, last.states.get? point = some e → e.contents.Framed a.setting.program point := by
  induction trace with
  | idle => exact framed
  | @visit entries rest last point entry pushes w w₁ w₂ visits next found delivered _ ih =>
      have states := Entries.states_of_next next
      rw [states] at found
      obtain ⟨block, s, successors, held, ran, known, rfl⟩ := of_deliveries_base base delivered
      have after := (framed point entry found).run owns ran
      refine ih (Entries.forall_flowAll
        (Q := fun point e => e.contents.Framed a.setting.program point) order
        (fun _ s holds => ?_) (fun _ e s own other => ?_) (states ▸ framed) fun push member => ?_)
      · rwa [State.contents_freezeHeap]
      · rw [State.contents_join]
        exact own.join other.toAliased
      · obtain ⟨successor, listed, rfl⟩ := List.mem_map.mp member
        rw [State.contents_freezeHeap]
        refine { after with located := fun target held' => ?_ }
        have same := inside _ _ ⟨successors, known, listed⟩ block target held held'
        exact (after.located block held).trans same.symm

/-- In a result by the ordinary rules, the entry states of the blocks of a function have its
    activation and `arguments` objects, and each parameter equals its argument, provided that no
    variable has the name of a parameter, that functions stand under their indices and own the
    blocks in which they are entered, and that control stays in a function. In an assembled flow
    graph it is enough that edges stay in a function. -/
theorem parameters_aliased (base : a.dispatcher = .base) (apart : a.setting.program.ParametersApart)
    {w w' : World σ} {result : FixedPoint} (done : a.fixedPoint.run.run w = (.ok result, w')) :
    (a.setting.program.OwnsEntries → a.setting.program.StaysInside →
      result.Aliases a.setting.program) ∧
    (a.setting.program.Assembled →
      (∀ edge ∈ a.setting.program.graph.edges, a.setting.program.functionOfBlock edge.head =
        a.setting.program.functionOfBlock edge.tail) →
      result.Aliases a.setting.program) := by
  have general : a.setting.program.OwnsEntries → a.setting.program.StaysInside →
      result.Aliases a.setting.program := by
    intro owns inside point s f stored owner notMain
    obtain ⟨last, ⟨main, order, entries, w₁, body, started, trace⟩, same⟩ :=
      runs_of_fixedPoint done (isSound_of_base base done)
    rw [of_start_flows started] at trace
    have framed := framed_trace base owns inside trace
      (framed_start base owns apart body order _) point s (same ▸ stored)
    exact framed.aliases owner notMain
  exact ⟨general, fun assembled edges =>
    general assembled.ownsEntries (assembled.staysInside edges)⟩

/-- A function that writes its second parameter in a loop. -/
def parameterLoop : Analysis Unit where
  setting := {
    host := .uniform .anyNumber
    program := .sketch [("f", ["x", "y"])] 0
      [(0, .newObject 0), (0, .writeVariable "y" 0), (1, .newObject 1), (1, .writeVariable "y" 1)]
      [(1, 1)]
    options := {} }
  dispatcher := .base

/-- Where the loop is entered, the second argument can be the object that the loop makes. -/
theorem parameterLoop_aliased :
    ∃ result w' s f, parameterLoop.fixedPoint.run.run ⟨.initial, (), []⟩ = (.ok result, w') ∧
      result.states.get? ⟨1, .main⟩ = some s ∧
      parameterLoop.setting.program.functionOfBlock 1 = .ok f ∧ f.parameters = ["x", "y"] ∧
      ((s.object? (.arguments f.index)).map fun o => (o.shape.get (.name "1")).labels) =
        some (.ofList [⟨2, .object, none⟩]) ∧ s.Aliases f := by
  let f : Function := ⟨1, some "f", ["x", "y"], [], 1⟩
  have shown : parameterLoop.settled? ⟨.initial, (), []⟩ ⟨1, .main⟩
      (fun s => (s.object? (.arguments 1)).map fun o => (o.shape.get (.name "1")).labels) =
        some (.ofList [⟨2, .object, none⟩]) := by
    decide +kernel
  have apart : parameterLoop.setting.program.ParametersApart := by
    unfold FlowGraph.ParametersApart
    decide +kernel
  have edges : ∀ edge ∈ parameterLoop.setting.program.graph.edges.toList,
      edge = ⟨1, 1⟩ := by
    decide +kernel
  obtain ⟨result, w', s, done, stored, labels⟩ := of_settled? shown
  have aliases := (parameters_aliased rfl apart done).2 (.sketch _ _ _ _) fun edge member => by
    rw [edges edge (FinSet.mem_toList.mpr member)]
  exact ⟨result, w', s, f, done, stored, rfl, rfl, labels, aliases ⟨1, .main⟩ s f stored rfl rfl⟩

/-- A program whose body is entered in a block of a function, which is itself entered in another. -/
def borrowedEntry : Analysis Unit where
  setting := {
    host := .uniform .anyNumber
    program := {
      graph := {
        vertices := .ofList [(0, ⟨0, 0, []⟩), (1, ⟨1, 1, []⟩), (2, ⟨2, 1, []⟩)]
        edges := ∅
        successors := .ofList [(0, ∅), (1, ∅), (2, ∅)] }
      functions := [⟨0, none, [], [], 1⟩, ⟨1, some "f", ["x"], [], 2⟩]
      nodeBlocks := ∅
      nextBlock := 3 }
    options := {} }
  dispatcher := .base

/-- A program with two functions of the same index, the first of which writes its parameter. -/
def sharedIndex : Analysis Unit where
  setting := {
    host := .uniform .anyNumber
    program := {
      graph := {
        vertices := .ofList
          [(0, ⟨0, 0, []⟩), (1, ⟨1, 1, [⟨0, 1, .newObject 0⟩, ⟨1, 1, .writeVariable "x" 0⟩]⟩),
            (2, ⟨2, 2, []⟩)]
        edges := ∅
        successors := .ofList [(0, ∅), (1, .ofList [1]), (2, ∅)] }
      functions :=
        [⟨0, none, [], [], 0⟩, ⟨2, some "f", ["x"], [], 1⟩, ⟨2, some "g", ["y", "x"], [], 2⟩]
      nodeBlocks := .ofList [(0, 1), (1, 1)]
      nextBlock := 3 }
    options := {} }
  dispatcher := .base

/-- A run by the ordinary rules in which a parameter parts from its argument, although no variable
    has the name of a parameter and control stays in a function. -/
def LosesAlias (a : Analysis Unit) : Prop :=
  a.dispatcher = .base ∧ a.setting.program.ParametersApart ∧ a.setting.program.StaysInside ∧
    a.setting.program.graph.edges = ∅ ∧
    ∃ result w', a.fixedPoint.run.run ⟨.initial, (), []⟩ = (.ok result, w') ∧
      ¬ result.Aliases a.setting.program

/-- In the first program, the state in which the body is entered has no frame of the function whose
    block it is. In the second, the write goes to the argument of the other function. -/
theorem unowned_frames : borrowedEntry.LosesAlias ∧ sharedIndex.LosesAlias := by
  have missing : borrowedEntry.settled? ⟨.initial, (), []⟩ ⟨1, .main⟩
      (fun s => some (s.object? (.activation 1)).isNone) = some true := by
    decide +kernel
  have different : sharedIndex.settled? ⟨.initial, (), []⟩ ⟨1, .main⟩
      (fun s => (s.object? (.activation 2)).bind fun activation =>
        (s.object? (.arguments 2)).map fun arguments =>
          decide (activation.shape.get (.name "x") = arguments.shape.get (.name "0"))) =
            some false := by
    decide +kernel
  refine ⟨⟨rfl, ?_, .of_successors ?_, rfl, ?_⟩,
    rfl, ?_, .of_successors ?_, rfl, ?_⟩
  · unfold FlowGraph.ParametersApart
    decide +kernel
  · decide +kernel
  · obtain ⟨result, w', s, done, stored, none⟩ := of_settled? missing
    refine ⟨result, w', done, fun aliases => ?_⟩
    obtain ⟨activation, _, found, _⟩ :=
      aliases ⟨1, .main⟩ s ⟨1, some "f", ["x"], [], 2⟩ stored rfl rfl
    rw [found] at none
    cases none
  · unfold FlowGraph.ParametersApart
    decide +kernel
  · decide +kernel
  · obtain ⟨result, w', s, done, stored, unequal⟩ := of_settled? different
    refine ⟨result, w', done, fun aliases => ?_⟩
    obtain ⟨activation, arguments, found, found', equal⟩ :=
      aliases ⟨1, .main⟩ s ⟨2, some "f", ["x"], [], 1⟩ stored rfl rfl
    obtain ⟨i, index, same⟩ := equal "x" (by decide)
    cases index
    rw [show toString 0 = "0" from rfl] at same
    rw [found, found', Option.bind_some, Option.map_some, decide_eq_true same] at unequal
    cases unequal

end Analysis

end ScriptHeap
