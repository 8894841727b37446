import Mathlib.Data.List.Perm.Subperm
import ScriptHeap.Proofs.Value.Plain

/-!
# Heights of values

A plain value can grow only finitely often while its labels stay among some labels: each time its
height increases (`Plain.eq_or_height_lt`), and the height is bounded (`height_le`). A known
string counts less than a flag, since it gives way to the flag for any string.
-/

namespace ScriptHeap

namespace FinSet

variable {α : Type} [Ord α] [DecidableEq α] [Std.TransOrd α] [Std.LawfulEqOrd α]

omit [DecidableEq α] [Std.TransOrd α] [Std.LawfulEqOrd α] in
theorem length_toList (s : FinSet α) : s.toList.length = s.size := List.length_map _

omit [Std.TransOrd α] in
theorem size_le {s : FinSet α} {elements : List α} (subset : ∀ a ∈ s, a ∈ elements) :
    s.size ≤ elements.length := by
  rw [← length_toList]
  exact (s.nodup_toList.subperm fun a listed => subset a (mem_toList.mp listed)).length_le

theorem eq_or_size_lt {s t : FinSet α} (subset : ∀ a ∈ s, a ∈ t) : s = t ∨ s.size < t.size := by
  have below : s.toList.Subperm t.toList :=
    s.nodup_toList.subperm fun a listed => mem_toList.mpr (subset a (mem_toList.mp listed))
  rw [← length_toList, ← length_toList]
  rcases Nat.lt_or_eq_of_le below.length_le with less | same
  · exact .inr less
  · refine .inl (FinSet.ext fun a => ?_)
    rw [← mem_toList, (below.perm_of_length_le (Nat.le_of_eq same.symm)).mem_iff, mem_toList]

end FinSet

namespace Flags

theorem bits_le (f : Flags) : f.bits ≤ 16383 := by
  have bit := Bool.toNat_le
  unfold bits
  grind

/-- Flags that are absorbed and are not the same have a smaller mask. -/
theorem eq_or_bits_lt {f g : Flags} (above : f.join g = f) : g = f ∨ g.bits < f.bits := by
  have or_eq : ∀ p q : Bool, (p || q) = p ↔ q.toNat ≤ p.toNat := by decide
  have eq : ∀ p q : Bool, p = q ↔ p.toNat = q.toNat := by decide
  cases f
  cases g
  simp only [join, Flags.mk.injEq, or_eq] at above
  simp only [bits, Flags.mk.injEq, eq]
  omega

end Flags

namespace Value

/-- How often a value has grown at most. -/
def height (v : Value) : Nat := 2 * v.flags.bits + v.string.isSome.toNat + v.labels.size

theorem height_le (v : Value) {labels : List Label}
    (inside : ∀ label ∈ v.labels, label ∈ labels) : v.height ≤ 32767 + labels.length := by
  have flags := v.flags.bits_le
  have string := Bool.toNat_le v.string.isSome
  have size := FinSet.size_le inside
  unfold height
  omega

namespace Plain

variable {v w : Value}

theorem ext (left : v.Plain) (right : w.Plain) (flags : v.flags = w.flags)
    (string : v.string = w.string) (labels : v.labels = w.labels) : v = w := by
  have whole := left.whole.trans right.whole.symm
  cases v
  cases w
  simp_all

/-- A value that is absorbed by another is lower, or it is the same. -/
theorem eq_or_height_lt (left : w.Plain) (right : v.Plain) (above : w.Absorbs v) :
    v = w ∨ v.height < w.height := by
  obtain ⟨flags, strings, labels⟩ := (left.absorbs_iff right).mp above
  have string := Bool.toNat_le v.string.isSome
  have size : v.labels.size ≤ w.labels.size := by
    rcases FinSet.eq_or_size_lt labels with same | less
    · exact Nat.le_of_eq (congrArg FinSet.size same)
    · exact Nat.le_of_lt less
  unfold height
  rcases Flags.eq_or_bits_lt flags with sameFlags | less
  · -- The flag for any string is not new, so a known string stays.
    have kept : v.string = w.string ∨ v.string.isSome.toNat < w.string.isSome.toNat := by
      cases known : v.string with
      | some s =>
          refine .inl ((strings s known).resolve_right fun any => ?_).symm
          rw [← sameFlags] at any
          rw [right.formed.oneString any] at known
          cases known
      | none =>
          cases w.string with
          | none => exact .inl rfl
          | some t => exact .inr Nat.one_pos
    rw [sameFlags]
    rcases kept with sameString | less
    · rcases FinSet.eq_or_size_lt labels with sameLabels | less
      · exact .inl (right.ext left sameFlags sameString sameLabels)
      · rw [sameString]
        exact .inr (by omega)
    · exact .inr (by omega)
  · exact .inr (by omega)

end Plain

end Value

end ScriptHeap
