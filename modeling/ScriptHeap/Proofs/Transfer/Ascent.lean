import Mathlib.Data.Finite.Prod
import Mathlib.Data.Set.Finite.Lattice
import Mathlib.Order.Filter.AtTopBot.Basic
import Mathlib.Order.Filter.Finite
import Mathlib.Order.Lattice.Nat
import ScriptHeap.Proofs.Transfer.Bounds
import ScriptHeap.Proofs.Value.Height

/-!
# Contents that grow

Contents that only grow, that use what a program can name and that list some finitely many keys have
finitely many spots at which they hold something. At each of them what they hold can grow only
finitely often. So in the end they stay as they are (`Contents.eventually_same`).
-/

namespace ScriptHeap

open Filter

/-- What changes only upwards, and not above a bound, does not change for ever. -/
theorem eventually_same_of_height {α : Type} {x : Nat → α} (height : α → Nat) (bound : Nat)
    (step : ∀ n, x n = x (n + 1) ∨ height (x n) < height (x (n + 1)))
    (bounded : ∀ n, height (x n) ≤ bound) : ∀ᶠ n in atTop, x (n + 1) = x n := by
  have above : BddAbove (Set.range fun n => height (x n)) :=
    ⟨bound, Set.forall_mem_range.mpr bounded⟩
  have rising : Monotone fun n => height (x n) := by
    refine monotone_nat_of_le_succ fun n => ?_
    rcases step n with same | less
    · exact le_of_eq (congrArg height same)
    · exact less.le
  obtain ⟨top, highest⟩ := Nat.sSup_mem (Set.range_nonempty fun n => height (x n)) above
  refine eventually_atTop.mpr ⟨top, fun n later => ?_⟩
  rcases step n with same | less
  · exact same.symm
  · have below : height (x (n + 1)) ≤ height (x top) :=
      (le_csSup above (Set.mem_range_self (n + 1))).trans_eq highest.symm
    exact absurd (less.trans_le (below.trans (rising later))) (lt_irrefl _)

/-- The properties that the shape lists are under some keys. -/
def Shape.Lists (K : Set Key) (shape : Shape) : Prop :=
  ∀ key, shape.properties.contains key = true → key ∈ K

theorem Shape.Lists.get?_of_not_mem {K : Set Key} {shape : Shape} (lists : shape.Lists K)
    {key : Key} (other : key ∉ K) : shape.properties.get? key = Option.none :=
  Option.eq_none_iff_forall_ne_some.mpr fun v held =>
    other (lists key (FinMap.contains_eq_true_iff.mpr ⟨v, held⟩))

/-- The slots that are no properties. -/
def Slot.fixed : Set Slot := {.defaultNumeric, .defaultOther, .internalValue, .internalPrototype}

theorem Shape.ext_fixed {a b : Shape} (properties : a.properties = b.properties)
    (slots : ∀ slot ∈ Slot.fixed, a.getSlot slot = b.getSlot slot) (scope : a.scope = b.scope) :
    a = b := by
  have numeric : a.defaultNumeric = b.defaultNumeric := slots .defaultNumeric (by simp [Slot.fixed])
  have other : a.defaultOther = b.defaultOther := slots .defaultOther (by simp [Slot.fixed])
  have value : a.internalValue = b.internalValue := slots .internalValue (by simp [Slot.fixed])
  have prototype : a.internalPrototype = b.internalPrototype :=
    slots .internalPrototype (by simp [Slot.fixed])
  cases a
  cases b
  simp_all

/-- The spots at which contents can hold something that list some keys, apart from the properties
    that are not listed. -/
def Spot.bounded (program : FlowGraph) (K : Set Key) : Set Spot :=
  Set.image Spot.register {r | r ∈ program.results} ∪
    Set.image2 Spot.slot {label | label ∈ program.labels} Slot.fixed ∪
    Set.image2 Spot.listed {label | label ∈ program.labels} K

theorem Spot.finite_bounded (program : FlowGraph) {K : Set Key} (finite : K.Finite) :
    (bounded program K).Finite := by
  refine .union (.union ?_ ?_) ?_
  · exact (List.finite_toSet program.results).image _
  · exact .image2 _ (List.finite_toSet program.labels) (by simp [Slot.fixed])
  · exact .image2 _ (List.finite_toSet program.labels) finite

namespace Contents

/-- The properties that objects list are under some keys. -/
def Lists (K : Set Key) (c : Contents) : Prop := c.shapes.All (Shape.Lists K)

variable {program : FlowGraph} {K : Set Key} {c d : Contents}

theorem Lists.mono {K' : Set Key} (lists : c.Lists K) (subset : K ⊆ K') : c.Lists K' :=
  fun label shape found key listed => subset (lists label shape found key listed)

theorem Lists.join (left : c.Lists K) (right : d.Lists K) : (c.join d).Lists K := by
  refine Lookup.All.join_closed ?_ left right
  intro shape other lists lists' key listed
  exact ((Shape.contains_join shape other key).mp listed).elim (lists key) (lists' key)

theorem Within.exists_lists (within : c.Within program) : ∃ K : Set Key, K.Finite ∧ c.Lists K := by
  refine ⟨⋃ label ∈ {label | label ∈ program.labels},
    {key | ∃ shape, c.shapes label = some shape ∧ shape.properties.contains key = true}, ?_, ?_⟩
  · refine (List.finite_toSet _).biUnion fun label _ => ?_
    cases found : c.shapes label with
    | none => exact Set.finite_empty.subset (by rintro key ⟨_, ⟨⟩, _⟩)
    | some shape =>
        refine (List.finite_toSet shape.properties.keys).subset ?_
        rintro key ⟨_, ⟨⟩, listed⟩
        exact FinMap.mem_keys_iff.mpr (FinMap.contains_eq_true_iff.mp listed)
  · intro label shape found key listed
    exact Set.mem_biUnion (within.placed label shape found).1 ⟨shape, found, listed⟩

theorem Within.shape_ext (within : c.Within program) (within' : d.Within program)
    (lists : c.Lists K) (lists' : d.Lists K)
    (same : ∀ spot ∈ Spot.bounded program K, c.at? spot = d.at? spot) {label : Label}
    (named : label ∈ program.labels) : c.shapes label = d.shapes label := by
  have fixed : ∀ slot ∈ Slot.fixed, (c.shapes label).map (fun shape => shape.getSlot slot) =
      (d.shapes label).map fun shape => shape.getSlot slot :=
    fun slot member => same (.slot label slot) (.inl (.inr (Set.mem_image2_of_mem named member)))
  have listed : ∀ key ∈ K, c.at? (.listed label key) = d.at? (.listed label key) :=
    fun key member => same _ (.inr (Set.mem_image2_of_mem named member))
  have present := fixed .internalValue (by simp [Slot.fixed])
  cases own : c.shapes label with
  | none =>
      rw [own] at present
      exact (Option.map_eq_none_iff.mp present.symm).symm
  | some shape =>
      cases other : d.shapes label with
      | none =>
          rw [own, other] at present
          cases present
      | some shape' =>
          have properties : shape.properties = shape'.properties := by
            refine FinMap.ext fun key => ?_
            by_cases member : key ∈ K
            · rw [← at?_listed own, ← at?_listed other, listed key member]
            · rw [(lists label shape own).get?_of_not_mem member,
                (lists' label shape' other).get?_of_not_mem member]
          refine congrArg some (Shape.ext_fixed properties (fun slot member => ?_) ?_)
          · have both := fixed slot member
            rw [own, other] at both
            exact Option.some.inj both
          · rw [(within.placed label shape own).2, (within'.placed label shape' other).2]

/-- Contents are given by what they hold at the spots that they can use. -/
theorem Within.ext (within : c.Within program) (within' : d.Within program) (lists : c.Lists K)
    (lists' : d.Lists K) (same : ∀ spot ∈ Spot.bounded program K, c.at? spot = d.at? spot)
    (function : c.function = d.function) : c = d := by
  have registers : c.registers = d.registers := by
    funext r
    by_cases named : r ∈ program.results
    · exact same (.register r) (.inl (.inl (Set.mem_image_of_mem _ named)))
    · rw [Option.eq_none_iff_forall_ne_some.mpr fun v held => named (within.registers r v held),
        Option.eq_none_iff_forall_ne_some.mpr fun v held => named (within'.registers r v held)]
  have shapes : c.shapes = d.shapes := by
    funext label
    by_cases named : label ∈ program.labels
    · exact within.shape_ext within' lists lists' same named
    · rw [Option.eq_none_iff_forall_ne_some.mpr fun v held => named (within.placed label v held).1,
        Option.eq_none_iff_forall_ne_some.mpr fun v held => named (within'.placed label v held).1]
  exact Contents.ext registers shapes function

/-- What growing contents hold at a spot does not change for ever. -/
theorem eventually_same_at? {c : Nat → Contents} (grows : ∀ n, (c (n + 1)).Covers (c n))
    (within : ∀ n, (c n).Within program) (spot : Spot) :
    ∀ᶠ n in atTop, (c (n + 1)).at? spot = (c n).at? spot := by
  have held : ∀ n v, (c n).at? spot = some v → v.Within program := fun n _ =>
    (within n).each.at?
  refine eventually_same_of_height (x := fun n => (c n).at? spot)
    (fun v? => v?.elim 0 fun v => v.height + 1) (32767 + program.labels.length + 1)
    (fun n => ?_) fun n => ?_
  · cases own : (c n).at? spot with
    | none =>
        cases (c (n + 1)).at? spot with
        | none => exact .inl rfl
        | some w => exact .inr (Nat.succ_pos _)
    | some v =>
        obtain ⟨w, next, above⟩ := (grows n).at? (within n).plain own
        rw [next]
        rcases (held _ w next).1.eq_or_height_lt (held n v own).1 above with same | less
        · exact .inl (congrArg some same)
        · exact .inr (Nat.succ_lt_succ less)
  · cases own : (c n).at? spot with
    | none => exact Nat.zero_le _
    | some v => exact Nat.succ_le_succ (Value.height_le v (held n v own).2)

/-- Growing contents do not change for ever. -/
theorem eventually_same {c : Nat → Contents} (grows : ∀ n, (c (n + 1)).Covers (c n))
    (function : ∀ n, (c (n + 1)).function = (c n).function)
    (within : ∀ n, (c n).Within program) (lists : ∀ n, (c n).Lists K) (finite : K.Finite) :
    ∀ᶠ n in atTop, c (n + 1) = c n := by
  have spots : ∀ᶠ n in atTop, ∀ spot ∈ Spot.bounded program K,
      (c (n + 1)).at? spot = (c n).at? spot :=
    (eventually_all_finite (Spot.finite_bounded program finite)).mpr fun spot _ =>
      eventually_same_at? grows within spot
  refine spots.mono fun n same => ?_
  exact (within (n + 1)).ext (within n) (lists (n + 1)) (lists n) same (function n)

end Contents

end ScriptHeap
