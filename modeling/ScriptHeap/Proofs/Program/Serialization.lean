import ScriptHeap.Proofs.Json.Datum
import ScriptHeap.Proofs.Program.Builder

/-!
# Flow graphs in a format

The edges of a flow graph stand in a map under their two ends, and a pair is no key that a format
has to take. So in a format that keeps to the rule for keys, a flow graph can be written if it has
no edge, and only then. What has been written is read back exactly if the format reads back every
number constant of the program (`FlowGraph.read_write_iff`). JSON is such a format, and it does not
read back every number.
-/

namespace ScriptHeap

/-! ### Data that is read again -/

namespace Datum

variable {α β : Type} {f : Float → Option Float} {write : α → Datum} {read : Datum → Option α}

/-- What is read out of data after its numbers have been read again. -/
def reread? (f : Float → Option Float) (read : Datum → Option α) (d : Datum) : Option α :=
  (d.mapNumbers? f).bind read

/-- The data holds no number. -/
def Numberless (d : Datum) : Prop :=
  ∀ f, d.mapNumbers? f = some d

theorem Numberless.reread? {d : Datum} (numberless : d.Numberless) :
    d.reread? f read = read d := by
  rw [Datum.reread?, numberless, Option.bind_some]

theorem numberless_ofOption (each : ∀ a, (write a).Numberless) (a : Option α) :
    (ofOption write a).Numberless := by
  intro f
  cases a with
  | none => rfl
  | some a => rw [ofOption, mapNumbers?, each a f, Option.map_some]

theorem numberless_ofList (each : ∀ a, (write a).Numberless) (items : List α) :
    (ofList write items).Numberless := by
  intro f
  have kept : (items.map write).mapM (mapNumbers? f) = some (items.map write) := by
    rw [mapM_eq_some_self_iff, List.forall_mem_map]
    exact fun a _ => each a f
  rw [ofList, mapNumbers?, mapItems?_eq, kept, Option.map_some]

theorem numberless_ofEntries (each : ∀ a, (write a).Numberless) (entries : List (Nat × α)) :
    (ofEntries .word write entries).Numberless := by
  intro f
  have kept : (entries.map fun entry => (word entry.1, write entry.2)).mapM
      (fun entry => (mapNumbers? f entry.2).map (entry.1, ·)) =
        some (entries.map fun entry => (word entry.1, write entry.2)) := by
    rw [mapM_eq_some_self_iff, List.forall_mem_map]
    intro entry _
    rw [each entry.2 f, Option.map_some]
  rw [ofEntries, mapNumbers?, mapEntries?_eq, kept, Option.map_some]

theorem numberless_record {fields : List (String × Datum)}
    (each : ∀ field ∈ fields, field.2.Numberless) : (record fields).Numberless := by
  intro f
  have kept : (fields.mapM fun field => (mapNumbers? f field.2).map (field.1, ·)) = some fields := by
    rw [mapM_eq_some_self_iff]
    intro field member
    rw [each field member f, Option.map_some]
  rw [mapNumbers?, mapFields?_eq, kept, Option.map_some]

theorem numberless_tagged (name : String) {d : Datum} (numberless : d.Numberless) :
    (tagged name d).Numberless := by
  intro f
  rw [mapNumbers?, numberless f, Option.map_some]

theorem keyed_ofOption (write : α → Datum) (each : ∀ a, (write a).keyed = true) (a : Option α) :
    (ofOption write a).keyed = true := by
  cases a with
  | none => rfl
  | some a => exact each a

theorem keyed_ofList (write : α → Datum) (each : ∀ a, (write a).keyed = true) (items : List α) :
    (ofList write items).keyed = true := by
  rw [ofList, keyed, itemsKeyed_eq]
  simp [each]

theorem keyed_ofEntries (write : α → Datum) (each : ∀ a, (write a).keyed = true)
    (entries : List (Nat × α)) :
    (ofEntries .word write entries).keyed = true := by
  rw [ofEntries, keyed, entriesKeyed_eq]
  simp [each, isKey]

theorem option?_ofOption (same : ∀ a, read (write a) = some a) (a : Option α) :
    (ofOption write a).option? read = some a := by
  cases a with
  | none => rfl
  | some a => rw [ofOption, option?, same, Option.map_some]

theorem list?_ofList (same : ∀ a, read (write a) = some a) (items : List α) :
    (ofList write items).list? read = some items := by
  rw [ofList, list?, List.mapM_map, mapM_eq_some_self_iff]
  exact fun a _ => same a

theorem entries?_ofEntries {read : Datum → Option β} {g : α → β}
    (same : ∀ a, read (write a) = some (g a)) (entries : List (Nat × α)) :
    (ofEntries .word write entries).entries? word? read =
      some (entries.map fun entry => (entry.1, g entry.2)) := by
  rw [ofEntries, entries?, List.mapM_map]
  refine mapM_eq_some_map fun entry _ => ?_
  simp only [Function.comp_apply, word?, same]
  rfl

theorem reread?_ofList (items : List α) :
    reread? f (list? read) (ofList write items) = items.mapM fun a => reread? f read (write a) := by
  rw [reread?, ofList, mapNumbers?, mapItems?_eq, Option.bind_map, List.mapM_map]
  exact mapM_bind_mapM _ read items

theorem reread?_ofEntries (entries : List (Nat × α)) :
    reread? f (entries? word? read) (ofEntries .word write entries) =
      entries.mapM fun entry => (reread? f read (write entry.2)).map (entry.1, ·) := by
  rw [reread?, ofEntries, mapNumbers?, mapEntries?_eq, Option.bind_map, List.mapM_map]
  refine (mapM_bind_mapM _ _ entries).trans (congrArg (entries.mapM ·) (funext fun entry => ?_))
  simp only [Function.comp_apply, reread?]
  cases (write entry.2).mapNumbers? f with
  | none => rfl
  | some d =>
      simp only [Option.map_some, Option.bind_some, word?]
      cases read d <;> rfl

/-- A list is read as it was exactly if each of its items is. -/
theorem reread?_ofList_iff {items : List α} :
    reread? f (list? read) (ofList write items) = some items ↔
      ∀ a ∈ items, reread? f read (write a) = some a := by
  rw [reread?_ofList, mapM_eq_some_self_iff]

/-- A map under numbers is read as it was exactly if each of its values is. -/
theorem reread?_ofEntries_iff {m : FinMap Nat α} :
    (reread? f (entries? word? read) (ofEntries .word write m.toList)).map FinMap.ofList = some m ↔
      ∀ entry ∈ m.toList, reread? f read (write entry.2) = some entry.2 := by
  have each : (m.toList.mapM fun entry => (reread? f read (write entry.2)).map (entry.1, ·)) =
      some m.toList ↔ ∀ entry ∈ m.toList, reread? f read (write entry.2) = some entry.2 := by
    rw [mapM_eq_some_self_iff]
    simp [Prod.ext_iff]
  rw [reread?_ofEntries, ← each]
  constructor
  · intro done
    obtain ⟨entries, listed, same⟩ := Option.map_eq_some_iff.mp done
    have keys : entries.map Prod.fst = m.toList.map Prod.fst := by
      refine map_of_mapM listed fun entry made done => ?_
      obtain ⟨_, _, rfl⟩ := Option.map_eq_some_iff.mp done
      rfl
    have ordered : (m.toList.map Prod.fst).Pairwise fun a b => compare a b = .lt :=
      List.pairwise_map.mpr m.sorted
    rw [← keys] at ordered
    rw [listed, ← same, FinMap.toList_ofList (List.pairwise_map.mp ordered)]
  · intro listed
    rw [listed, Option.map_some, FinMap.ofList_toList]

end Datum

/-! ### Parts of operations -/

namespace Constant

/-- The number that a literal stands for. -/
def number? : Constant → Option Float
  | .number x => some x
  | _ => none

theorem reread?_iff {f : Float → Option Float} (c : Constant) :
    c.toDatum.reread? f ofDatum? = some c ↔ ∀ x, c.number? = some x → f x = some x := by
  cases c with
  | undefined | null | boolean | string =>
      simp [number?, toDatum, Datum.reread?, Datum.mapNumbers?, ofDatum?, Datum.bool?, Datum.text?]
  | number x =>
      cases again : f x <;>
        simp [number?, toDatum, Datum.reread?, Datum.mapNumbers?, ofDatum?, Datum.number?, again]

theorem fits {c : Constant} (finite : ∀ x, c.number? = some x → IsFinite x) :
    Fits schema c.toDatum := by
  cases c with
  | undefined | null => exact .case (by simp)
  | boolean b => exact .tagged (by simp) rfl (.bool b)
  | number x => exact .tagged (by simp) rfl (.number (finite x rfl))
  | string s => exact .tagged (by simp) rfl (.text s)

theorem keyed (c : Constant) : c.toDatum.keyed = true := by
  cases c <;> rfl

end Constant

namespace PropertyName

/-- The register of a name operand. -/
def words : PropertyName → List Nat
  | .fixed _ => []
  | .dynamic r => [r]

theorem fits {p : PropertyName} (small : ∀ n ∈ p.words, n < Json.Numeral.wordLimit) :
    Fits schema p.toDatum := by
  cases p with
  | fixed name => exact .tagged (by simp) rfl (.text name)
  | dynamic r => exact .tagged (by simp) rfl (.word (small r (by simp [words])))

theorem numberless (p : PropertyName) : p.toDatum.Numberless := by
  cases p <;> exact fun _ => rfl

end PropertyName

namespace BinaryOperator

theorem numberless (op : BinaryOperator) : op.toDatum.Numberless := fun _ => rfl

theorem fits (op : BinaryOperator) : Fits schema op.toDatum :=
  .case (List.mem_map.mpr ⟨op, by cases op <;> decide, rfl⟩)

end BinaryOperator

/-! ### Operations -/

namespace Operation

/-- The registers and the site of an operation. -/
def words : Operation → List Nat
  | .constant result _ => [result]
  | .readVariable result _ => [result]
  | .writeVariable _ value => [value]
  | .readProperty result base property => result.toList ++ base :: property.words
  | .writeProperty base property value => base :: value :: property.words
  | .newObject result => [result]
  | .call operands =>
    operands.result.toList ++ operands.base.toList ++ operands.function.toList ++ operands.arguments
  | .binaryOperator result _ lhs rhs => [result, lhs, rhs]
  | .foreignMarker site => [site]
  | .nop => []

/-- The number constant of an operation. -/
def number? : Operation → Option Float
  | .constant _ value => value.number?
  | _ => none

variable {f : Float → Option Float}

theorem reread?_constant (result : Register) (value : Constant) :
    (toDatum (.constant result value)).reread? f ofDatum? =
      (value.toDatum.reread? f Constant.ofDatum?).map (.constant result) := by
  have form : (toDatum (.constant result value)).mapNumbers? f =
      (value.toDatum.mapNumbers? f).map fun d =>
        .tagged "Constant" (.record [("result", .word result), ("value", d)]) := by
    show Option.map _ (Option.map _
      (Datum.mapFields? f [("result", .word result), ("value", value.toDatum)])) = _
    cases again : value.toDatum.mapNumbers? f <;>
      simp [Datum.mapFields?, Datum.mapNumbers?, again, Operation.kind, OperationKind.name]
  rw [Datum.reread?, Datum.reread?, form]
  cases value.toDatum.mapNumbers? f with
  | none => rfl
  | some d =>
      show (Constant.ofDatum? d).bind (fun value => some (Operation.constant result value)) = _
      cases read : Constant.ofDatum? d <;> simp [read]

/-- An operation with fields is its kind over them. -/
theorem toDatum_eq {op : Operation} (other : op.kind ≠ .nop) : op.toDatum =
    .tagged op.kind.name (.record (((fields op.kind).map Prod.fst).zip op.fieldData)) := by
  cases op <;> first | rfl | exact absurd rfl other

/-- Only a number constant holds a number. -/
theorem numberless {op : Operation} (other : op.kind ≠ .constant) : op.toDatum.Numberless := by
  have word : ∀ n, (Datum.word n).Numberless := fun _ _ => rfl
  have text : ∀ s, (Datum.text s).Numberless := fun _ _ => rfl
  have bool : ∀ b, (Datum.bool b).Numberless := fun _ _ => rfl
  have each : ∀ d ∈ op.fieldData, d.Numberless := by
    cases op with
    | constant => exact absurd rfl other
    | _ =>
        simp [fieldData, word, text, bool, Datum.numberless_ofOption, Datum.numberless_ofList,
          PropertyName.numberless, BinaryOperator.numberless]
  by_cases nop : op.kind = .nop
  · cases op <;> first | exact fun _ => rfl | cases nop
  · rw [toDatum_eq nop]
    exact Datum.numberless_tagged _
      (Datum.numberless_record fun field member => each _ (List.of_mem_zip member).2)

theorem ofDatum?_toDatum {op : Operation} (other : op.kind ≠ .constant) :
    ofDatum? op.toDatum = some op := by
  have word : ∀ n, (Datum.word n).word? = some n := fun _ => rfl
  have text : ∀ s, (Datum.text s).text? = some s := fun _ => rfl
  have wordOrNone := Datum.option?_ofOption word
  have textOrNone := Datum.option?_ofOption text
  have words := Datum.list?_ofList word
  cases op with
  | constant => exact absurd rfl other
  | readVariable | writeVariable | newObject | foreignMarker | nop => rfl
  | readProperty result base property => cases result <;> cases property <;> rfl
  | writeProperty base property value => cases property <;> rfl
  | binaryOperator result op lhs rhs => cases op <;> rfl
  | call operands =>
      have known : OperationKind.ofName? "Call" = some .call := rfl
      simp [toDatum, ofDatum?, Operation.kind, OperationKind.name, known, fields, fieldData,
        ofFieldData?, wordOrNone, textOrNone, words, Datum.bool?]

/-- An operation is read as it was exactly if its number constant is. -/
theorem reread?_iff {op : Operation} :
    op.toDatum.reread? f ofDatum? = some op ↔ ∀ x, op.number? = some x → f x = some x := by
  cases op with
  | constant result value =>
      rw [reread?_constant, number?, ← Constant.reread?_iff]
      cases value.toDatum.reread? f Constant.ofDatum? <;> simp
  | _ =>
      refine iff_of_true ?_ (by simp [number?])
      rw [(numberless (by simp [Operation.kind])).reread?, ofDatum?_toDatum]
      simp [Operation.kind]

/-- An operation with fields fits if they do, one by one. -/
theorem fits_of_fields {op : Operation} (other : op.kind ≠ .nop)
    (each : List.Forall₂ (fun field d => Fits field.2 d) (fields op.kind) op.fieldData) :
    Fits schema op.toDatum := by
  have distinct : ∀ kind, ((fields kind).map Prod.fst).Nodup := by
    intro kind
    cases kind <;> decide
  have listed : ∀ kind, kind ≠ .nop →
      ((OperationKind.all.filter fun kind => kind ≠ .nop).map fun kind =>
        (kind.name, Schema.record (fields kind))).lookup kind.name = some (.record (fields kind)) := by
    intro kind other
    cases kind <;> first | rfl | exact absurd rfl other
  have bare : ∀ kind, kind ≠ OperationKind.nop → kind.name ∉ [OperationKind.nop.name] := by
    intro kind
    cases kind <;> decide
  rw [toDatum_eq other]
  exact .tagged (bare _ other) (listed _ other) (.fields _ (distinct _) each)

theorem fits {op : Operation} (small : ∀ n ∈ op.words, n < Json.Numeral.wordLimit)
    (finite : ∀ x, op.number? = some x → IsFinite x) : Fits schema op.toDatum := by
  have word : ∀ n ∈ op.words, Fits .word (.word n) := fun n member => .word (small n member)
  have wordOrNone : ∀ a : Option Nat, (∀ n ∈ a, n ∈ op.words) →
      Fits (.option .word) (.ofOption .word a) :=
    fun a inside => .ofOption rfl fun n member => word n (inside n member)
  cases op with
  | constant result value =>
      refine fits_of_fields nofun (.cons (word _ ?_) (.cons (Constant.fits finite) .nil))
      simp [words]
  | readVariable result name =>
      refine fits_of_fields nofun (.cons (word _ ?_) (.cons (.text _) .nil))
      simp [words]
  | writeVariable name value =>
      refine fits_of_fields nofun (.cons (.text _) (.cons (word _ ?_) .nil))
      simp [words]
  | readProperty result base property =>
      refine fits_of_fields nofun (.cons (wordOrNone _ ?_) (.cons (word _ ?_)
        (.cons (PropertyName.fits ?_) .nil)))
      · simp +contextual [words]
      · simp [words]
      · exact fun n member => small n (by simp [words, member])
  | writeProperty base property value =>
      refine fits_of_fields nofun (.cons (word _ ?_) (.cons (PropertyName.fits ?_)
        (.cons (word _ ?_) .nil)))
      · simp [words]
      · exact fun n member => small n (by simp [words, member])
      · simp [words]
  | newObject result =>
      refine fits_of_fields nofun (.cons (word _ ?_) .nil)
      simp [words]
  | call operands =>
      refine fits_of_fields nofun (.cons (wordOrNone _ ?_) (.cons (wordOrNone _ ?_)
        (.cons (.ofOption rfl fun _ _ => .text _) (.cons (wordOrNone _ ?_)
          (.cons (.ofList fun n member => word n ?_) (.cons (.bool _) .nil))))))
      all_goals simp +contextual [words, *]
  | binaryOperator result op lhs rhs =>
      refine fits_of_fields nofun (.cons (word _ ?_) (.cons op.fits (.cons (word _ ?_)
        (.cons (word _ ?_) .nil))))
      all_goals simp [words]
  | foreignMarker site =>
      refine fits_of_fields nofun (.cons (word _ ?_) .nil)
      simp [words]
  | nop => exact .case List.mem_cons_self

/-- There is no map in an operation. -/
theorem keyed (op : Operation) : op.toDatum.keyed = true := by
  have property : ∀ p : PropertyName, p.toDatum.keyed = true := by
    intro p
    cases p <;> rfl
  have each : ∀ d ∈ op.fieldData, d.keyed = true := by
    have words := Datum.keyed_ofList .word fun _ => rfl
    have wordOrNone := Datum.keyed_ofOption .word fun _ => rfl
    have textOrNone := Datum.keyed_ofOption .text fun _ => rfl
    cases op <;> simp [fieldData, Datum.keyed, property, words, wordOrNone, textOrNone,
      Constant.keyed, BinaryOperator.toDatum]
  by_cases nop : op.kind = .nop
  · cases op <;> first | rfl | cases nop
  · rw [toDatum_eq nop, Datum.keyed, Datum.keyed, Datum.fieldsKeyed_eq, List.all_eq_true]
    exact fun field member => each _ (List.of_mem_zip member).2

end Operation

/-! ### Blocks and functions -/

section Blocks

variable {f : Float → Option Float}

namespace Node

theorem reread?_toDatum (node : Node) :
    node.toDatum.reread? f ofDatum? =
      (node.operation.toDatum.reread? f Operation.ofDatum?).map (.mk node.index node.block) := by
  obtain ⟨index, block, operation⟩ := node
  simp only [Datum.reread?, toDatum, Datum.mapNumbers?, Datum.mapFields?]
  cases operation.toDatum.mapNumbers? f with
  | none => rfl
  | some d =>
      show (Operation.ofDatum? d).bind (fun op => some (Node.mk index block op)) = _
      cases read : Operation.ofDatum? d <;> simp [read]

theorem reread?_iff {node : Node} :
    node.toDatum.reread? f ofDatum? = some node ↔
      ∀ x, node.operation.number? = some x → f x = some x := by
  rw [reread?_toDatum, ← Operation.reread?_iff]
  obtain ⟨index, block, operation⟩ := node
  cases operation.toDatum.reread? f Operation.ofDatum? <;> simp

theorem fits {node : Node} (index : node.index < Json.Numeral.wordLimit)
    (block : node.block < Json.Numeral.wordLimit)
    (small : ∀ n ∈ node.operation.words, n < Json.Numeral.wordLimit)
    (finite : ∀ x, node.operation.number? = some x → IsFinite x) : Fits schema node.toDatum :=
  .fields [.word node.index, .word node.block, node.operation.toDatum] (by decide)
    (.cons (.word index) (.cons (.word block) (.cons (Operation.fits small finite) .nil)))

theorem keyed (node : Node) : node.toDatum.keyed = true := by
  simp [toDatum, Datum.keyed, Datum.fieldsKeyed, Operation.keyed]

end Node

namespace Block

/-- The numbers of the nodes of a block fit words. -/
def FitsWords (block : Block) : Prop :=
  ∀ node ∈ block.nodes, node.index < Json.Numeral.wordLimit ∧ node.block < Json.Numeral.wordLimit ∧
    ∀ n ∈ node.operation.words, n < Json.Numeral.wordLimit

/-- The number constants of a block. -/
def numbers (block : Block) : List Float :=
  block.nodes.filterMap fun node => node.operation.number?

theorem reread?_toDatum (block : Block) :
    block.toDatum.reread? f ofDatum? =
      ((Datum.ofList Node.toDatum block.nodes).reread? f (Datum.list? Node.ofDatum?)).map
        (.mk block.index block.function) := by
  obtain ⟨index, function, nodes⟩ := block
  simp only [Datum.reread?, toDatum, Datum.mapNumbers?, Datum.mapFields?]
  cases (Datum.ofList Node.toDatum nodes).mapNumbers? f with
  | none => rfl
  | some d =>
      show (d.list? Node.ofDatum?).bind (fun nodes => some (Block.mk index function nodes)) = _
      cases read : d.list? Node.ofDatum? <;> simp [read]

theorem reread?_iff {block : Block} :
    block.toDatum.reread? f ofDatum? = some block ↔ ∀ x ∈ block.numbers, f x = some x := by
  have each : (∀ node ∈ block.nodes, node.toDatum.reread? f Node.ofDatum? = some node) ↔
      ∀ x ∈ block.numbers, f x = some x := by
    simp only [Node.reread?_iff, numbers, List.mem_filterMap]
    constructor
    · rintro nodes x ⟨node, inside, number⟩
      exact nodes node inside x number
    · exact fun numbers node inside x number => numbers x ⟨node, inside, number⟩
  rw [reread?_toDatum, ← each, ← Datum.reread?_ofList_iff]
  obtain ⟨index, function, nodes⟩ := block
  cases (Datum.ofList Node.toDatum nodes).reread? f (Datum.list? Node.ofDatum?) <;> simp

theorem fits {block : Block} (index : block.index < Json.Numeral.wordLimit)
    (function : block.function < Json.Numeral.wordLimit) (small : block.FitsWords)
    (finite : ∀ x ∈ block.numbers, IsFinite x) : Fits schema block.toDatum := by
  have nodes : Fits (.list Node.schema) (.ofList Node.toDatum block.nodes) := by
    refine .ofList fun node inside => ?_
    obtain ⟨index, home, words⟩ := small node inside
    exact Node.fits index home words fun x number =>
      finite x (List.mem_filterMap.mpr ⟨node, inside, number⟩)
  exact .fields [.word block.index, .word block.function, .ofList Node.toDatum block.nodes]
    (by decide) (.cons (.word index) (.cons (.word function) (.cons nodes .nil)))

theorem keyed (block : Block) : block.toDatum.keyed = true := by
  simp [toDatum, Datum.keyed, Datum.fieldsKeyed, Datum.keyed_ofList _ Node.keyed]

end Block

namespace Function

theorem numberless (f : Function) : f.toDatum.Numberless := by
  have word : ∀ n, (Datum.word n).Numberless := fun _ _ => rfl
  have text : ∀ s, (Datum.text s).Numberless := fun _ _ => rfl
  refine Datum.numberless_record ?_
  simp [word, Datum.numberless_ofOption text, Datum.numberless_ofList text]

theorem ofDatum?_toDatum (f : Function) : ofDatum? f.toDatum = some f := by
  have text : ∀ s, (Datum.text s).text? = some s := fun _ => rfl
  simp [toDatum, ofDatum?, Datum.word?, Datum.option?_ofOption text, Datum.list?_ofList text]

theorem fits {f : Function} (index : f.index < Json.Numeral.wordLimit)
    (entry : f.entry < Json.Numeral.wordLimit) : Fits schema f.toDatum :=
  .fields [.word f.index, .ofOption .text f.name, .ofList .text f.parameters,
      .ofList .text f.locals, .word f.entry] (by decide)
    (.cons (.word index) (.cons (.ofOption rfl fun _ _ => .text _)
      (.cons (.ofList fun _ _ => .text _) (.cons (.ofList fun _ _ => .text _)
        (.cons (.word entry) .nil)))))

theorem keyed (f : Function) : f.toDatum.keyed = true := by
  have texts := Datum.keyed_ofList .text fun _ => rfl
  have textOrNone := Datum.keyed_ofOption .text fun _ => rfl
  simp [toDatum, Datum.keyed, Datum.fieldsKeyed, texts, textOrNone]

end Function

end Blocks

/-! ### Graphs -/

namespace Digraph

variable {ν : Type} {f : Float → Option Float} {g : Digraph ν} {write : ν → Datum}
  {read : Datum → Option ν}

/-- The edges of a graph as data. -/
def edgeData (g : Digraph ν) : Datum :=
  .map (g.edges.toList.map fun edge => (edge.ends, edge.toDatum))

/-- The successors of a graph as data. -/
def successorData (g : Digraph ν) : Datum :=
  .ofEntries .word (fun next : FinSet Nat => .ofList .word next.toList) g.successors.toList

/-- The ends of an edge are a pair, and no key. -/
theorem keyed_edgeData : g.edgeData.keyed = true ↔ g.edges = ∅ := by
  rw [edgeData, Datum.keyed, Datum.entriesKeyed_eq, List.all_map, List.all_eq_true]
  constructor
  · intro keys
    refine FinSet.ext fun edge => iff_of_false (fun member => ?_) (FinSet.not_mem_empty edge)
    cases keys edge (FinSet.mem_toList.mpr member)
  · rintro empty edge member
    rw [empty] at member
    cases member

/-- The keys of a graph are texts and words exactly if it has no edge. -/
theorem keyed_toDatum (each : ∀ v, (write v).keyed = true) :
    (g.toDatum write).keyed = true ↔ g.edges = ∅ := by
  have vertices := Datum.keyed_ofEntries write each g.vertices.toList
  have successors : g.successorData.keyed = true :=
    Datum.keyed_ofEntries _ (fun next => Datum.keyed_ofList .word (fun _ => rfl) _) _
  rw [← keyed_edgeData]
  show (_ && (g.edgeData.keyed && (g.successorData.keyed && true))) = true ↔ _
  rw [vertices, successors, Bool.true_and, Bool.and_true, Bool.and_true]

theorem numberless_edgeData : g.edgeData.Numberless := by
  intro f
  have kept : (g.edges.toList.map fun edge => (edge.ends, edge.toDatum)).mapM
      (fun entry => (entry.2.mapNumbers? f).map (entry.1, ·)) =
        some (g.edges.toList.map fun edge => (edge.ends, edge.toDatum)) := by
    rw [mapM_eq_some_self_iff, List.forall_mem_map]
    exact fun _ _ => rfl
  rw [edgeData, Datum.mapNumbers?, Datum.mapEntries?_eq, kept, Option.map_some]

theorem entries?_edgeData :
    g.edgeData.entries? some Edge.ofDatum? =
      some (g.edges.toList.map fun edge => (edge.ends, edge)) := by
  rw [edgeData, Datum.entries?, List.mapM_map]
  exact mapM_eq_some_map fun _ _ => rfl

theorem numberless_successorData : g.successorData.Numberless :=
  Datum.numberless_ofEntries (fun _ => Datum.numberless_ofList (fun _ _ => rfl) _) _

theorem entries?_successorData :
    g.successorData.entries? Datum.word? (Datum.list? Datum.word?) =
      some (g.successors.toList.map fun entry => (entry.1, entry.2.toList)) := by
  have word : ∀ n, (Datum.word n).word? = some n := fun _ => rfl
  exact Datum.entries?_ofEntries (fun next : FinSet Nat => Datum.list?_ofList word next.toList) _

/-- A graph is read as it was, its vertices apart. -/
theorem reread?_toDatum :
    (g.toDatum write).reread? f (ofDatum? read) =
      ((Datum.ofEntries .word write g.vertices.toList).reread? f
        (Datum.entries? Datum.word? read)).map fun found =>
          ⟨.ofList found, g.edges, g.successors⟩ := by
  have form : (g.toDatum write).mapNumbers? f =
      ((Datum.ofEntries .word write g.vertices.toList).mapNumbers? f).map fun d =>
        .record [("vertices", d), ("edges", g.edgeData), ("successors", g.successorData)] := by
    have edges := g.numberless_edgeData f
    have successors := g.numberless_successorData f
    show Option.map _ (Datum.mapFields? f [("vertices", _), ("edges", g.edgeData),
      ("successors", g.successorData)]) = _
    cases again : (Datum.ofEntries .word write g.vertices.toList).mapNumbers? f <;>
      simp [Datum.mapFields?, again, edges, successors]
  have edges : FinSet.ofList ((g.edges.toList.map fun edge => (edge.ends, edge)).map Prod.snd) =
      g.edges := by
    rw [List.map_map]
    exact (congrArg FinSet.ofList (List.map_id _)).trans (FinSet.ofList_toList _)
  have successors : FinMap.ofList ((g.successors.toList.map fun entry =>
      (entry.1, entry.2.toList)).map fun entry => (entry.1, FinSet.ofList entry.2)) =
        g.successors := by
    simp [Function.comp_def, FinSet.ofList_toList, FinMap.ofList_toList]
  rw [Datum.reread?, Datum.reread?, form, Option.bind_map, Option.map_bind]
  refine congrArg _ (funext fun d => ?_)
  simp only [Function.comp_apply, ofDatum?, entries?_edgeData, entries?_successorData]
  cases d.entries? Datum.word? read with
  | none => rfl
  | some found =>
      show some (Digraph.mk _ _ _) = some (Digraph.mk _ _ _)
      rw [edges, successors]

/-- A graph is read as it was exactly if its vertices are. -/
theorem reread?_iff :
    (g.toDatum write).reread? f (ofDatum? read) = some g ↔
      ∀ entry ∈ g.vertices.toList, (write entry.2).reread? f read = some entry.2 := by
  rw [reread?_toDatum, ← Datum.reread?_ofEntries_iff]
  obtain ⟨vertices, edges, successors⟩ := g
  cases (Datum.ofEntries .word write vertices.toList).reread? f (Datum.entries? Datum.word? read) <;>
    simp

theorem fits {vertex : Schema}
    (vertices : ∀ entry ∈ g.vertices.toList,
      entry.1 < Json.Numeral.wordLimit ∧ Fits vertex (write entry.2))
    (edges : ∀ edge ∈ g.edges,
      edge.head < Json.Numeral.wordLimit ∧ edge.tail < Json.Numeral.wordLimit)
    (successors : ∀ entry ∈ g.successors.toList,
      entry.1 < Json.Numeral.wordLimit ∧ ∀ b ∈ entry.2, b < Json.Numeral.wordLimit) :
    Fits (schema vertex) (g.toDatum write) := by
  have vertexData : Fits (.map .word vertex) (.ofEntries .word write g.vertices.toList) :=
    .ofEntries (fun entry member => .word (vertices entry member).1)
      fun entry member => (vertices entry member).2
  have edgeData : Fits (.map (.tuple [.word, .word]) Edge.schema) g.edgeData := by
    refine .map (List.forall_mem_map.mpr fun edge member => ?_)
      (List.forall_mem_map.mpr fun edge member => ?_)
    · obtain ⟨head, tail⟩ := edges edge (FinSet.mem_toList.mp member)
      refine .tuple [(.word, .word edge.head), (.word, .word edge.tail)] ?_
      simp [Fits.word, head, tail]
    · obtain ⟨head, tail⟩ := edges edge (FinSet.mem_toList.mp member)
      exact .fields [.word edge.head, .word edge.tail] (by decide)
        (.cons (.word head) (.cons (.word tail) .nil))
  have successorData : Fits (.map .word (.list .word)) g.successorData := by
    refine .ofEntries (fun entry member => .word (successors entry member).1)
      fun entry member => .ofList fun b inside => ?_
    exact .word ((successors entry member).2 b (FinSet.mem_toList.mp inside))
  exact .fields [.ofEntries .word write g.vertices.toList, g.edgeData, g.successorData] (by simp)
    (.cons vertexData (.cons edgeData (.cons successorData .nil)))

end Digraph

/-! ### Flow graphs -/

namespace FlowGraph

/-- The numbers of a flow graph fit words of 64 bits. -/
structure FitsWords (fg : FlowGraph) : Prop where
  blocks : fg.nextBlock < Json.Numeral.wordLimit
  functions : fg.functions.length ≤ Json.Numeral.wordLimit
  nodes : fg.nodeBlocks.size ≤ Json.Numeral.wordLimit
  operations : ∀ block ∈ fg.blocks, ∀ node ∈ block.nodes, ∀ n ∈ node.operation.words,
    n < Json.Numeral.wordLimit

/-- The number constants of a program. -/
def numbers (fg : FlowGraph) : List Float :=
  fg.blocks.flatMap Block.numbers

variable {fg : FlowGraph} {format : Format} {f : Float → Option Float}

/-- The keys of a flow graph are texts and words exactly if it has no edge. -/
theorem keyed_toDatum : fg.toDatum.keyed = true ↔ fg.graph.edges = ∅ := by
  have functions := Datum.keyed_ofList _ Function.keyed fg.functions
  have homes := Datum.keyed_ofEntries .word (fun _ => rfl) fg.nodeBlocks.toList
  rw [← Digraph.keyed_toDatum Block.keyed]
  simp [toDatum, Datum.keyed, Datum.fieldsKeyed, functions, homes]

/-- A flow graph is read as it was, its blocks apart. -/
theorem reread?_toDatum :
    fg.toDatum.reread? f ofDatum? =
      ((fg.graph.toDatum Block.toDatum).reread? f (Digraph.ofDatum? Block.ofDatum?)).map fun graph =>
        ⟨graph, fg.functions, fg.nodeBlocks, fg.nextBlock⟩ := by
  have form : fg.toDatum.mapNumbers? f =
      ((fg.graph.toDatum Block.toDatum).mapNumbers? f).map fun d =>
        .record [("graph", d), ("functions", .ofList Function.toDatum fg.functions),
          ("node_blocks", .ofEntries .word .word fg.nodeBlocks.toList),
          ("next_block", .word fg.nextBlock)] := by
    have functions := Datum.numberless_ofList Function.numberless fg.functions f
    have homes := Datum.numberless_ofEntries (fun n _ => (rfl : (Datum.word n).mapNumbers? _ = _))
      fg.nodeBlocks.toList f
    rw [toDatum, Datum.mapNumbers?]
    cases again : (fg.graph.toDatum Block.toDatum).mapNumbers? f <;>
      simp [Datum.mapFields?, Datum.mapNumbers?, again, functions, homes]
  have functions := Datum.list?_ofList Function.ofDatum?_toDatum fg.functions
  have homes : (Datum.ofEntries .word .word fg.nodeBlocks.toList).entries? Datum.word? Datum.word? =
      some fg.nodeBlocks.toList :=
    (Datum.entries?_ofEntries (fun n => (rfl : (Datum.word n).word? = some (id n))) _).trans
      (congrArg some (List.map_id _))
  rw [Datum.reread?, Datum.reread?, form, Option.bind_map, Option.map_bind]
  refine congrArg _ (funext fun d => ?_)
  simp only [Function.comp_apply, ofDatum?, functions, homes, Datum.word?]
  cases Digraph.ofDatum? Block.ofDatum? d with
  | none => rfl
  | some graph =>
      show some (FlowGraph.mk _ _ (.ofList fg.nodeBlocks.toList) _) = some (FlowGraph.mk _ _ _ _)
      rw [FinMap.ofList_toList]

/-- A flow graph is read as it was exactly if its number constants are. -/
theorem reread?_iff :
    fg.toDatum.reread? f ofDatum? = some fg ↔ ∀ x ∈ fg.numbers, f x = some x := by
  have blocks : (fg.graph.toDatum Block.toDatum).reread? f (Digraph.ofDatum? Block.ofDatum?) =
      some fg.graph ↔ ∀ x ∈ fg.numbers, f x = some x := by
    rw [Digraph.reread?_iff, numbers, List.forall_mem_flatMap, FlowGraph.blocks, FinMap.values,
      List.forall_mem_map]
    exact forall₂_congr fun entry _ => Block.reread?_iff
  rw [reread?_toDatum, ← blocks]
  obtain ⟨graph, functions, nodeBlocks, nextBlock⟩ := fg
  cases (graph.toDatum Block.toDatum).reread? f (Digraph.ofDatum? Block.ofDatum?) <;> simp

section Assembled

variable (assembled : fg.Assembled) (fits : fg.FitsWords)

include assembled fits

theorem block_fits {b : Nat} {block : Block} (held : fg.graph.vertices.get? b = some block) :
    b < Json.Numeral.wordLimit ∧ block.index < Json.Numeral.wordLimit ∧
      block.function < Json.Numeral.wordLimit ∧ block.FitsWords := by
  obtain ⟨number, owner⟩ := assembled.owned.blocks b block held
  obtain ⟨index, homes⟩ := assembled.numbered b block held
  have below : b < Json.Numeral.wordLimit := Nat.lt_trans number fits.blocks
  refine ⟨below, index ▸ below, Nat.lt_of_lt_of_le owner fits.functions, fun node inside => ?_⟩
  refine ⟨?_, homes node inside ▸ below, ?_⟩
  · exact Nat.lt_of_lt_of_le (assembled.counted.index_lt held inside) fits.nodes
  · exact fits.operations block (FinMap.mem_values_iff.mpr ⟨b, held⟩) node inside

theorem vertex_fits {b : Nat} (vertex : fg.graph.hasVertex b = true) :
    b < Json.Numeral.wordLimit := by
  obtain ⟨block, held⟩ := FinMap.contains_eq_true_iff.mp vertex
  exact (block_fits assembled fits held).1

theorem function_fits {f : Function} (member : f ∈ fg.functions) :
    f.index < Json.Numeral.wordLimit ∧ f.entry < Json.Numeral.wordLimit := by
  obtain ⟨i, found⟩ := List.mem_iff_getElem?.mp member
  obtain ⟨index, block, held, _⟩ := assembled.owned.functions i f found
  refine ⟨?_, (block_fits assembled fits held).1⟩
  rw [index]
  exact Nat.lt_of_lt_of_le (List.getElem?_eq_some_iff.mp found).1 fits.functions

theorem nodeBlocks_fit :
    ∀ entry ∈ fg.nodeBlocks.toList,
      entry.1 < Json.Numeral.wordLimit ∧ entry.2 < Json.Numeral.wordLimit := by
  rintro ⟨i, b⟩ member
  have recorded := FinMap.mem_toList_iff.mp member
  obtain ⟨block, held, _⟩ := assembled.counted.held i b recorded
  refine ⟨?_, (block_fits assembled fits held).1⟩
  exact Nat.lt_of_lt_of_le ((assembled.counted.numbers i).mp (by rw [recorded]; rfl)) fits.nodes

theorem graph_fits (finite : ∀ x ∈ fg.numbers, IsFinite x) :
    Fits (Digraph.schema Block.schema) (fg.graph.toDatum Block.toDatum) := by
  have joined := assembled.joined
  refine Digraph.fits (fun entry member => ?_) (fun edge member => ?_) fun entry member => ?_
  · have held := FinMap.mem_toList_iff.mp member
    obtain ⟨number, index, function, words⟩ := block_fits assembled fits held
    refine ⟨number, Block.fits index function words fun x inside => ?_⟩
    exact finite x (List.mem_flatMap.mpr ⟨_, FinMap.mem_values_iff.mpr ⟨_, held⟩, inside⟩)
  · exact (joined.edges edge member).imp (vertex_fits assembled fits) (vertex_fits assembled fits)
  · have recorded := FinMap.mem_toList_iff.mp member
    refine ⟨vertex_fits assembled fits ((joined.successors _).mp (by rw [recorded]; rfl)), ?_⟩
    intro next inside
    have leads : fg.Leads entry.1 next := leads_iff.mpr (by rw [recorded]; exact inside)
    rw [assembled.alongEdges] at leads
    exact vertex_fits assembled fits (joined.edges _ leads).2

/-- The data of an assembled flow graph fits its schema. -/
theorem toDatum_fits (finite : ∀ x ∈ fg.numbers, IsFinite x) : Fits schema fg.toDatum := by
  have functions : Fits (.list Function.schema) (.ofList Function.toDatum fg.functions) := by
    refine .ofList fun f member => ?_
    obtain ⟨index, entry⟩ := function_fits assembled fits member
    exact Function.fits index entry
  have homes : Fits (.map .word .word) (.ofEntries .word .word fg.nodeBlocks.toList) :=
    .ofEntries (fun entry member => .word (nodeBlocks_fit assembled fits entry member).1)
      fun entry member => .word (nodeBlocks_fit assembled fits entry member).2
  exact .fields [fg.graph.toDatum Block.toDatum, .ofList Function.toDatum fg.functions,
      .ofEntries .word .word fg.nodeBlocks.toList, .word fg.nextBlock] (by decide)
    (.cons (graph_fits assembled fits finite) (.cons functions
      (.cons homes (.cons (.word fits.blocks) .nil))))

end Assembled

theorem write_eq_ok_iff {text : String} :
    fg.write format = .ok text ↔ format.write? fg.toDatum = some text := by
  cases written : format.write? fg.toDatum <;> simp [write, written]

theorem read_eq_ok_iff {text : String} :
    read format text = .ok fg ↔ (format.read? schema text).bind ofDatum? = some fg := by
  cases found : (format.read? schema text).bind ofDatum? <;> simp [read, found]

/-- Let a format write data exactly if the keys of all maps in it are texts or words, and read data
    that fits a schema back from its text, with each number as it reads that number alone. Then a
    flow graph put together by its own methods can be written exactly if it has no edge, and reading
    the text gives the flow graph back exactly if the format reads back every number constant. -/
theorem read_write_iff (keyRule : format.KeyRule) (roundTrip : format.RoundTrip)
    (assembled : fg.Assembled) (fits : fg.FitsWords) (finite : ∀ x ∈ fg.numbers, IsFinite x) :
    ((∃ text, fg.write format = .ok text) ↔ fg.graph.edges = ∅) ∧
      ∀ text, fg.write format = .ok text →
        (read format text = .ok fg ↔ ∀ x ∈ fg.numbers, format.again? x = some x) := by
  constructor
  · simp only [write_eq_ok_iff]
    rw [← Option.isSome_iff_exists, keyRule, keyed_toDatum]
  · intro text written
    rw [read_eq_ok_iff, roundTrip schema fg.toDatum text (toDatum_fits assembled fits finite)
      (write_eq_ok_iff.mp written)]
    exact reread?_iff

/-- A program without edges: a quoted text and a number in the body, a call in the function. -/
def unlinked : FlowGraph :=
  .sketch [("f", ["a", "b"])] 1
    [(0, .constant 0 (.string "a \"quoted\"\nline")), (2, .constant 1 (.number 1.5)),
      (1, .methodCall (some 2) 0 "g" [0, 1])] []

theorem unlinked_reads_back :
    Json.format.KeyRule ∧ Json.format.RoundTrip ∧ unlinked.Assembled ∧ unlinked.FitsWords ∧
      unlinked.numbers = [1.5] ∧ IsFinite 1.5 ∧
      ∃ text, unlinked.write Json.format = .ok text ∧ read Json.format text = .ok unlinked := by
  have assembled : unlinked.Assembled := .sketch _ _ _ _
  have numbers : unlinked.numbers = [1.5] := by decide +kernel
  have fits : unlinked.FitsWords := by constructor <;> decide +kernel
  have finite : IsFinite 1.5 := by
    unfold IsFinite
    decide +kernel
  have again : Json.format.again? 1.5 = some 1.5 := by
    rw [Json.again?_format finite]
    decide +kernel
  obtain ⟨canWrite, canRead⟩ := read_write_iff Json.format_keyRule Json.format_roundTrip assembled
    fits (by simpa [numbers] using finite)
  obtain ⟨text, written⟩ := canWrite.mpr (by decide +kernel)
  refine ⟨Json.format_keyRule, Json.format_roundTrip, assembled, fits, numbers, finite, text,
    written, (canRead text written).mpr ?_⟩
  simpa [numbers] using again

/-- A body of one block that leads back to itself. -/
def looped : FlowGraph :=
  .sketch [] 0 [] [(0, 0)]

/-- A body with one number constant. -/
def constantly (x : Float) : FlowGraph :=
  .sketch [] 0 [(0, .constant 0 (.number x))] []

/-- An edge cannot be written, and a number may be read back as its neighbour. -/
theorem lost_in_text :
    (looped.Assembled ∧ looped.numbers = [] ∧ looped.write Json.format = .error .json) ∧
      (constantly 31.245270191439438).Assembled ∧ IsFinite 31.245270191439438 ∧
        ∃ text, (constantly 31.245270191439438).write Json.format = .ok text ∧
          read Json.format text ≠ .ok (constantly 31.245270191439438) := by
  have assembled : (constantly 31.245270191439438).Assembled := .sketch _ _ _ _
  have numbers : (constantly 31.245270191439438).numbers = [31.245270191439438] := by
    decide +kernel
  have fits : (constantly 31.245270191439438).FitsWords := by constructor <;> decide +kernel
  have finite : IsFinite 31.245270191439438 := by
    unfold IsFinite
    decide +kernel
  have rounded : Json.format.again? 31.245270191439438 ≠ some 31.245270191439438 := by
    rw [Json.again?_format finite]
    decide +kernel
  have keyed : (constantly 31.245270191439438).toDatum.keyed = true :=
    keyed_toDatum.mpr (by decide +kernel)
  obtain ⟨text, written⟩ := Option.isSome_iff_exists.mp ((Json.format_keyRule _).trans keyed)
  have fitting := toDatum_fits assembled fits (by simpa [numbers] using finite)
  refine ⟨⟨.sketch _ _ _ _, by decide +kernel, rfl⟩, assembled, finite, text,
    write_eq_ok_iff.mpr written, fun readBack => rounded ?_⟩
  rw [read_eq_ok_iff, Json.format_roundTrip _ _ _ fitting written] at readBack
  exact reread?_iff.mp readBack _ (by simp [numbers])

end FlowGraph

end ScriptHeap
