import ScriptHeap.Proofs.Shape.Join
import ScriptHeap.State.Join

/-!
# States that cover others

A state covers another when joining the other to it changes no register and no object. This is what
the flag of a join reports (`join_changes_iff`), and it makes joins upper bounds: a join covers the
state that was joined (`covers_join_right`), and goes on covering what was covered before
(`Covers.join`).

A state is looked at through two look-ups, its registers and the shapes of its objects, and both are
joined in the same way.
-/

namespace ScriptHeap

/-! ### Look-ups -/

/-- What is known under each key. -/
abbrev Lookup (κ α : Type) := κ → Option α

namespace Lookup

variable {κ α : Type} [DecidableEq α]

/-- What is known has a property. -/
def All (p : α → Prop) (f : Lookup κ α) : Prop := ∀ key a, f key = some a → p a

/-- The join of two look-ups by an operation, which is left out where both sides agree. -/
def join (op : α → α → α) (f g : Lookup κ α) : Lookup κ α := fun key =>
  match f key, g key with
  | some a, some b => some (if a = b then a else op a b)
  | some a, none => some a
  | none, other => other

/-- The second look-up adds nothing to the first. -/
def Covers (op : α → α → α) (f g : Lookup κ α) : Prop :=
  ∀ key b, g key = some b → ∃ a, f key = some a ∧ (a = b ∨ op a b = a)

/-- An operation that gives upper bounds of formed operands. -/
structure UpperBound (op : α → α → α) (formed : α → Prop) : Prop where
  formed_op : ∀ {a b}, formed a → formed b → formed (op a b)
  absorbs_right : ∀ {a b}, formed a → formed b → op (op a b) b = op a b
  absorbs_left : ∀ {a b}, formed a → formed b → op (op a b) a = op a b
  absorbs_later : ∀ {a b c}, formed a → formed b → formed c → op a b = a →
    op (op a c) b = op a c

variable {op : α → α → α} {formed : α → Prop}

/-- A property that joins keep holds of all entries of a join. -/
theorem All.join_closed {p : α → Prop} (closed : ∀ {a b}, p a → p b → p (op a b))
    {f g : Lookup κ α} (left : f.All p) (right : g.All p) : (f.join op g).All p := by
  intro key a found
  unfold Lookup.join at found
  cases foundLeft : f key with
  | none => exact right key a (by simpa [foundLeft] using found)
  | some b =>
      have own := left key b foundLeft
      cases foundRight : g key with
      | none =>
          simp only [foundLeft, foundRight, Option.some.injEq] at found
          exact found ▸ own
      | some c =>
          simp only [foundLeft, foundRight, Option.some.injEq] at found
          subst found
          split
          · exact own
          · exact closed own (right key c foundRight)

theorem All.join (bound : UpperBound op formed) {f g : Lookup κ α} (formedLeft : f.All formed)
    (formedRight : g.All formed) : (f.join op g).All formed :=
  formedLeft.join_closed bound.formed_op formedRight

/-- A join covers its second side. -/
theorem covers_join_right (bound : UpperBound op formed) {f g : Lookup κ α}
    (formedLeft : f.All formed) (formedRight : g.All formed) : (f.join op g).Covers op g := by
  intro key b found
  unfold join
  cases left : f key with
  | none => exact ⟨b, by simp [found], .inl rfl⟩
  | some a =>
      refine ⟨if a = b then a else op a b, by simp [found], ?_⟩
      by_cases same : a = b
      · exact .inl (by simp [same])
      · rw [if_neg same]
        exact .inr (bound.absorbs_right (formedLeft key a left) (formedRight key b found))

/-- What is covered stays covered after a further join. -/
theorem Covers.join (bound : UpperBound op formed) {f g h : Lookup κ α}
    (formedLeft : f.All formed) (formedRight : g.All formed) (formedOther : h.All formed)
    (covered : f.Covers op g) : (f.join op h).Covers op g := by
  intro key b found
  obtain ⟨a, own, covers⟩ := covered key b found
  have formedOwn := formedLeft key a own
  unfold Lookup.join
  cases other : h key with
  | none => exact ⟨a, by simp [own], covers⟩
  | some c =>
      refine ⟨if a = c then a else op a c, by simp [own], ?_⟩
      by_cases same : a = c
      · rw [if_pos same]
        exact covers
      · rw [if_neg same]
        have formedNew := formedOther key c other
        rcases covers with rfl | absorbed
        · exact .inr (bound.absorbs_left formedOwn formedNew)
        · exact .inr (bound.absorbs_later formedOwn (formedRight key b found) formedNew absorbed)

end Lookup

theorem Value.join_upperBound : Lookup.UpperBound Value.join Value.WellFormed where
  formed_op := fun formedLeft formedRight => formedLeft.join formedRight
  absorbs_right := fun formedLeft formedRight => join_absorbs formedLeft formedRight
  absorbs_left := fun formedLeft formedRight => join_absorbs_left formedLeft formedRight
  absorbs_later := fun formedLeft formedRight formedOther absorbed =>
    Absorbs.join formedLeft formedRight formedOther absorbed

theorem Shape.join_upperBound : Lookup.UpperBound Shape.join Shape.WellFormed where
  formed_op := fun formedLeft formedRight => formedLeft.join formedRight
  absorbs_right := fun formedLeft formedRight => join_absorbs formedLeft formedRight
  absorbs_left := fun formedLeft formedRight => join_absorbs_left formedLeft formedRight
  absorbs_later := fun formedLeft formedRight formedOther absorbed =>
    Absorbs.join formedLeft formedRight formedOther absorbed

/-! ### States -/

namespace State

/-- The shape of the object of each label. -/
def shapes (s : State) : Lookup Label Shape := fun label =>
  (s.object? label).map HeapObject.shape

/-- Registers and slots hold well-formed values. -/
structure WellFormed (s : State) : Prop where
  registers : Lookup.All Value.WellFormed s.registers.get?
  shapes : Lookup.All Shape.WellFormed s.shapes

/-- The other state adds nothing to a register or to an object. -/
structure Covers (s other : State) : Prop where
  registers : Lookup.Covers Value.join s.registers.get? other.registers.get?
  shapes : Lookup.Covers Shape.join s.shapes other.shapes

/-- How a register of another state changes a register. -/
def mergeRegister : Merge Value := fun own v =>
  match own with
  | some existing =>
    if existing = v || existing.join v = existing then none else some (existing.join v)
  | none => some v

/-- How an object of another state changes an object. -/
def mergeCell : Merge Cell := fun own cell =>
  match own with
  | some existing =>
    let joined := existing.object.join cell.object
    if existing.object.shape = cell.object.shape || joined.shape = existing.object.shape then none
    else some ⟨joined.freeze, .owned⟩
  | none => some cell.frozen

theorem joinRegister_eq_step : joinRegister = mergeRegister.step := by
  funext acc entry
  obtain ⟨registers, changed⟩ := acc
  obtain ⟨r, v⟩ := entry
  unfold joinRegister Merge.step mergeRegister
  cases own : registers.get? r with
  | none => simp [own]
  | some existing =>
      simp only [own]
      split
      · simp_all
      · simp_all

theorem joinCell_eq_step : joinCell = mergeCell.step := by
  funext acc entry
  obtain ⟨heap, changed⟩ := acc
  obtain ⟨label, cell⟩ := entry
  unfold joinCell Merge.step mergeCell
  cases own : heap.get? label with
  | none => simp [own]
  | some existing =>
      simp only [own]
      split
      · simp_all
      · simp_all

/-- The join of two states goes through the registers and the objects of the second one after the
    other, and says whether one of them changed anything. -/
theorem join_eq (s other : State) :
    s.join other =
      ((mergeRegister.run (s.registers, false) other.registers.toList).2 ||
        (mergeCell.run (s.heap, false) other.heap.toList).2,
      { s with
        registers := (mergeRegister.run (s.registers, false) other.registers.toList).1
        heap := (mergeCell.run (s.heap, false) other.heap.toList).1
        mustDefs := agreeing s.mustDefs other.mustDefs
        mustEquals := agreeing s.mustEquals other.mustEquals }) := by
  unfold join
  rw [joinRegister_eq_step, joinCell_eq_step]
  rfl

@[simp] theorem shape_frozen (cell : Cell) : cell.frozen.object.shape = cell.object.shape := by
  unfold Cell.frozen
  split <;> rfl

/-- The registers of a join are joined one by one. -/
theorem registers_join (s other : State) :
    (s.join other).2.registers.get? =
      Lookup.join Value.join s.registers.get? other.registers.get? := by
  funext r
  rw [join_eq]
  show (mergeRegister.run (s.registers, false) other.registers.toList).1.get? r = _
  rw [Merge.get?_run]
  unfold Lookup.join mergeRegister
  cases own : s.registers.get? r with
  | none => cases other.registers.get? r <;> rfl
  | some existing =>
      cases other.registers.get? r with
      | none => rfl
      | some v => grind

/-- The shapes of a join are joined label by label. -/
theorem shapes_join (s other : State) :
    (s.join other).2.shapes = Lookup.join Shape.join s.shapes other.shapes := by
  funext label
  rw [join_eq]
  unfold shapes object? Lookup.join
  simp only [Merge.get?_run]
  unfold mergeCell
  cases own : s.heap.get? label with
  | none =>
      cases other.heap.get? label with
      | none => rfl
      | some cell => simp
  | some existing =>
      cases other.heap.get? label with
      | none => rfl
      | some cell =>
          simp only [HeapObject.join, HeapObject.ofShape, HeapObject.freeze, Option.map_some]
          grind

/-- A join of well-formed states is well formed. -/
theorem WellFormed.join {s other : State} (formed : s.WellFormed) (formedOther : other.WellFormed) :
    (s.join other).2.WellFormed where
  registers := by
    rw [registers_join]
    exact formed.registers.join Value.join_upperBound formedOther.registers
  shapes := by
    rw [shapes_join]
    exact formed.shapes.join Shape.join_upperBound formedOther.shapes

theorem covers_join_right {s other : State} (formed : s.WellFormed)
    (formedOther : other.WellFormed) : (s.join other).2.Covers other where
  registers := by
    rw [registers_join]
    exact Lookup.covers_join_right Value.join_upperBound formed.registers formedOther.registers
  shapes := by
    rw [shapes_join]
    exact Lookup.covers_join_right Shape.join_upperBound formed.shapes formedOther.shapes

theorem Covers.join {s t other : State} (formed : s.WellFormed) (formedCovered : t.WellFormed)
    (formedOther : other.WellFormed) (covered : s.Covers t) : (s.join other).2.Covers t where
  registers := by
    rw [registers_join]
    exact covered.registers.join Value.join_upperBound formed.registers formedCovered.registers
      formedOther.registers
  shapes := by
    rw [shapes_join]
    exact covered.shapes.join Shape.join_upperBound formed.shapes formedCovered.shapes
      formedOther.shapes

theorem mergeRegister_eq_none_iff (own : Option Value) (v : Value) :
    mergeRegister own v = none ↔ ∃ existing, own = some existing ∧
      (existing = v ∨ existing.join v = existing) := by
  unfold mergeRegister
  cases own with
  | none => simp
  | some existing => simp [Decidable.or_iff_not_imp_left]

theorem mergeCell_eq_none_iff (own : Option Cell) (cell : Cell) :
    mergeCell own cell = none ↔ ∃ existing, own = some existing ∧
      (existing.object.shape = cell.object.shape ∨
        existing.object.shape.join cell.object.shape = existing.object.shape) := by
  unfold mergeCell
  cases own with
  | none => simp
  | some existing =>
      simp only [Bool.or_eq_true, decide_eq_true_eq, Option.some.injEq, exists_eq_left']
      split
      · rename_i covers
        exact ⟨fun _ => covers, fun _ => rfl⟩
      · rename_i changes
        exact ⟨nofun, fun covers => absurd covers changes⟩

/-- A state covers another exactly where no entry of the other changes it. -/
theorem covers_iff_idle {s other : State} :
    s.Covers other ↔
      (∀ entry ∈ other.registers.toList,
        mergeRegister (s.registers.get? entry.1) entry.2 = none) ∧
      (∀ entry ∈ other.heap.toList, mergeCell (s.heap.get? entry.1) entry.2 = none) := by
  constructor
  · intro covered
    constructor
    · rintro ⟨r, v⟩ member
      exact (mergeRegister_eq_none_iff _ _).mpr
        (covered.registers r v (FinMap.mem_toList_iff.mp member))
    · rintro ⟨label, cell⟩ member
      have found : other.heap.get? label = some cell := FinMap.mem_toList_iff.mp member
      obtain ⟨shape, own, covers⟩ := covered.shapes label cell.object.shape
        (by simp [shapes, object?, found])
      obtain ⟨object, foundObject, rfl⟩ := Option.map_eq_some_iff.mp own
      obtain ⟨existing, foundOwn, rfl⟩ := Option.map_eq_some_iff.mp foundObject
      exact (mergeCell_eq_none_iff _ _).mpr ⟨existing, foundOwn, covers⟩
  · rintro ⟨registers, cells⟩
    constructor
    · intro r v found
      exact (mergeRegister_eq_none_iff _ _).mp
        (registers (r, v) (FinMap.mem_toList_iff.mpr found))
    · intro label shape found
      obtain ⟨object, foundObject, rfl⟩ := Option.map_eq_some_iff.mp found
      obtain ⟨cell, foundCell, rfl⟩ := Option.map_eq_some_iff.mp foundObject
      obtain ⟨existing, own, covers⟩ := (mergeCell_eq_none_iff _ _).mp
        (cells (label, cell) (FinMap.mem_toList_iff.mpr foundCell))
      exact ⟨existing.object.shape, by simp [shapes, object?, own], covers⟩

/-- The flag of a join says whether the other state was not covered. -/
theorem join_changes_iff {s other : State} : (s.join other).1 = false ↔ s.Covers other := by
  rw [covers_iff_idle, join_eq]
  constructor
  · intro quiet
    obtain ⟨quietRegisters, quietHeap⟩ := Bool.or_eq_false_iff.mp quiet
    exact ⟨Merge.idle_of_flag_run mergeRegister s.registers quietRegisters,
      Merge.idle_of_flag_run mergeCell s.heap quietHeap⟩
  · rintro ⟨registers, cells⟩
    rw [Merge.run_eq_self mergeRegister s.registers false registers,
      Merge.run_eq_self mergeCell s.heap false cells]
    rfl

/-- A join with a covered state leaves registers and objects as they are. -/
theorem Covers.join_eq {s other : State} (covered : s.Covers other) :
    (s.join other).2.registers = s.registers ∧ (s.join other).2.heap = s.heap := by
  obtain ⟨registers, cells⟩ := covers_iff_idle.mp covered
  rw [State.join_eq, Merge.run_eq_self mergeRegister s.registers false registers,
    Merge.run_eq_self mergeCell s.heap false cells]
  exact ⟨rfl, rfl⟩

/-! ### Freezing -/

@[simp] theorem shapes_freezeHeap (s : State) : s.freezeHeap.shapes = s.shapes := by
  funext label
  unfold shapes object? freezeHeap
  cases found : s.heap.get? label <;> simp [found]

theorem WellFormed.freezeHeap {s : State} (formed : s.WellFormed) : s.freezeHeap.WellFormed where
  registers := formed.registers
  shapes := by
    rw [shapes_freezeHeap]
    exact formed.shapes

/-- Freezing the heap loses nothing. -/
theorem freezeHeap_covers (s : State) : s.freezeHeap.Covers s where
  registers := fun _ v found => ⟨v, found, .inl rfl⟩
  shapes := fun _ shape found => ⟨shape, by rw [shapes_freezeHeap, found], .inl rfl⟩

end State

end ScriptHeap
