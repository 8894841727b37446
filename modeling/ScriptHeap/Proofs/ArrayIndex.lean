import Mathlib.Data.List.Induction
import ScriptHeap.Key
import ScriptHeap.Proofs.Json.Numeral

/-!
# Array indices

Digits without a leading zero are the decimal digits of the number they denote
(`toDigits_ofDigits`), and reading them stops early only where the number is too large to be an
index. So the names that the numeric default of an object describes are exactly the decimal texts of
the numbers below a limit (`Key.isNumeric_name_iff`).
-/

namespace ScriptHeap.Json.Numeral

/-! ### Digits and the numbers they denote -/

theorem ofDigits_append_singleton (digits : List Char) (c : Char) :
    ofDigits (digits ++ [c]) = 10 * ofDigits digits + digit c := by
  simp [ofDigits, Nat.mul_comm]

theorem digit_lt_ten {c : Char} (isDigit : c.isDigit = true) : digit c < 10 := by
  have upper : c.toNat ≤ 57 := (Char.isDigit_iff_toNat.mp isDigit).2
  show c.toNat - 48 < 10
  omega

theorem digitChar_digit {c : Char} (isDigit : c.isDigit = true) : (digit c).digitChar = c := by
  have lower : 48 ≤ c.toNat := (Char.isDigit_iff_toNat.mp isDigit).1
  have code : (digit c).digitChar.toNat = 48 + (c.toNat - 48) :=
    Nat.toNat_digitChar_of_lt_ten (digit_lt_ten isDigit)
  exact Char.toNat_inj.mp (by omega)

theorem toDigits_digit {c : Char} (isDigit : c.isDigit = true) :
    Nat.toDigits 10 (digit c) = [c] := by
  rw [Nat.toDigits_of_lt_base (digit_lt_ten isDigit), digitChar_digit isDigit]

theorem IsInteger.dropLast {digits : List Char} {c : Char} (integer : IsInteger (digits ++ [c]))
    (nonempty : digits ≠ []) : IsInteger digits where
  nonempty := nonempty
  digits d member := integer.digits d (List.mem_append_left _ member)
  noLeadingZero second rest same := integer.noLeadingZero second (rest ++ [c]) (by simp [same])

/-- Digits without a leading zero are the digits of the number they denote. -/
theorem toDigits_ofDigits {digits : List Char} (integer : IsInteger digits) :
    Nat.toDigits 10 (ofDigits digits) = digits := by
  induction digits using List.reverseRecOn with
  | nil => exact absurd rfl integer.nonempty
  | append_singleton digits c ih =>
      have last : c.isDigit = true := integer.digits c (by simp)
      rw [ofDigits_append_singleton]
      by_cases single : digits = []
      · subst single
        rw [show 10 * ofDigits [] + digit c = digit c from Nat.zero_add _, toDigits_digit last]
        rfl
      · have before := ih (integer.dropLast single)
        -- A number that is zero so far has a leading zero.
        have positive : 0 < ofDigits digits := by
          refine Nat.pos_of_ne_zero fun zero => ?_
          rw [zero, Nat.toDigits_zero] at before
          exact integer.noLeadingZero c [] (by rw [← before]; rfl)
        rw [← Nat.toDigits_append_toDigits (by decide) positive (digit_lt_ten last), before,
          toDigits_digit last]

/-! ### Reading a word -/

theorem le_foldl_digits (digits : List Char) (n : Nat) :
    n ≤ digits.foldl (fun n c => n * 10 + digit c) n := by
  induction digits generalizing n with
  | nil => exact Nat.le_refl n
  | cons c rest ih => exact Nat.le_trans (by omega) (ih (n * 10 + digit c))

/-- Reading stops early only where the number does not fit a word: more digits make it larger. -/
theorem word?_eq (digits : List Char) :
    word? digits = if ofDigits digits < wordLimit then some (ofDigits digits) else none := by
  have general : ∀ n, n < wordLimit →
      digits.foldlM (fun n c => let next := n * 10 + digit c
        if next < wordLimit then some next else none) n =
      if digits.foldl (fun n c => n * 10 + digit c) n < wordLimit
      then some (digits.foldl (fun n c => n * 10 + digit c) n) else none := by
    induction digits with
    | nil =>
        intro n fits
        exact (if_pos fits).symm
    | cons c rest ih =>
        intro n _
        rw [List.foldlM_cons, List.foldl_cons]
        by_cases fits : n * 10 + digit c < wordLimit
        · simp only [if_pos fits]
          exact ih _ fits
        · have above := le_foldl_digits rest (n * 10 + digit c)
          simp only [if_neg fits]
          exact (if_neg (by omega)).symm
  exact general 0 (by decide)

end ScriptHeap.Json.Numeral

namespace ScriptHeap.Key

open Json.Numeral

theorem any_word?_iff (digits : List Char) :
    (word? digits).any (· < indexLimit) = true ↔ ofDigits digits < indexLimit := by
  have smaller : indexLimit < wordLimit := by decide
  rw [word?_eq]
  split
  · exact decide_eq_true_iff
  · exact iff_of_false Bool.false_ne_true (by omega)

theorem isIndex_iff (chars : List Char) :
    isIndex chars = true ↔ IsInteger chars ∧ ofDigits chars < indexLimit := by
  unfold isIndex
  split
  · exact iff_of_false Bool.false_ne_true fun index => index.1.nonempty rfl
  · exact iff_of_false Bool.false_ne_true fun index => index.1.noLeadingZero _ _ rfl
  · rename_i nonempty noLeadingZero
    rw [Bool.and_eq_true, any_word?_iff, List.all_eq_true]
    exact and_congr_left' ⟨fun digits => ⟨nonempty, digits, noLeadingZero⟩, IsInteger.digits⟩

/-- A name is an array index if and only if it is the decimal text of a number below the limit. -/
theorem isNumeric_name_iff (s : String) :
    (name s).isNumeric = true ↔ ∃ n : Nat, n < 4294967295 ∧ s = toString n := by
  have spelled : ∀ n : Nat, s = toString n ↔ s.toList = Nat.toDigits 10 n := by
    intro n
    rw [Nat.toString_eq_ofList_toDigits, ← String.toList_inj, String.toList_ofList]
  refine (isIndex_iff s.toList).trans ⟨?_, ?_⟩
  · rintro ⟨integer, below⟩
    exact ⟨_, below, (spelled _).mpr (toDigits_ofDigits integer).symm⟩
  · rintro ⟨n, below, same⟩
    rw [(spelled n).mp same, ofDigits_toDigits]
    exact ⟨isInteger_toDigits n, below⟩

end ScriptHeap.Key
