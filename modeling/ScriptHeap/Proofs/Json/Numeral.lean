import ScriptHeap.Decimal.Layout
import ScriptHeap.Json.Numeral

/-!
# Number literals

A natural number of 64 bits is read back from its digits (`toWord?_toDigits`), and every finite
double is written as a number literal in data (`isSome_data_text`).
-/

namespace ScriptHeap.Json.Numeral

/-! ### The characters of literals -/

/-- The characters of number literals. -/
def isNumeric (c : Char) : Bool :=
  c.isDigit || ['-', '+', '.', 'e', 'E'].contains c

theorem isNumeric_of_isDigit {c : Char} (digit : c.isDigit = true) : isNumeric c = true := by
  simp [isNumeric, digit]

theorem numeric_of_exponent? {chars : List Char} (read : (exponent? chars).isSome = true) :
    ∀ c ∈ chars, isNumeric c = true := by
  have digits : ∀ {l : List Char}, (exponent?.magnitude? l).isSome = true →
      ∀ c ∈ l, isNumeric c = true := by
    intro l known c member
    unfold exponent?.magnitude? at known
    by_cases bad : (l.isEmpty || !l.all Char.isDigit) = true
    · rw [if_pos bad] at known
      cases known
    · have all : l.all Char.isDigit = true := by
        simp only [Bool.or_eq_true, not_or, Bool.not_eq_true', Bool.not_eq_false] at bad
        exact bad.2
      exact isNumeric_of_isDigit (List.all_eq_true.mp all c member)
  unfold exponent? at read
  split at read
  · exact List.forall_mem_cons.mpr ⟨rfl, digits read⟩
  · exact List.forall_mem_cons.mpr ⟨rfl, digits (by simpa using read)⟩
  · exact digits read

theorem isDigit_of_takeWhile {chars : List Char} :
    ∀ c ∈ chars.takeWhile Char.isDigit, isNumeric c = true :=
  fun c member => isNumeric_of_isDigit (List.all_eq_true.mp List.all_takeWhile c member)

theorem numeric_of_tail? {negative : Bool} {integer chars : List Char}
    (read : (tail? negative integer chars).isSome = true) : ∀ c ∈ chars, isNumeric c = true := by
  have power : ∀ {c : Char} {rest : List Char} {f : Int → Numeral},
      (if c = 'e' ∨ c = 'E' then (exponent? rest).map f else none).isSome = true →
        ∀ d ∈ c :: rest, isNumeric d = true := by
    intro c rest f known
    by_cases mark : c = 'e' ∨ c = 'E'
    · rw [if_pos mark, Option.isSome_map] at known
      refine List.forall_mem_cons.mpr ⟨?_, numeric_of_exponent? known⟩
      rcases mark with rfl | rfl <;> rfl
    · rw [if_neg mark] at known
      cases known
  unfold tail? at read
  split at read
  · exact nofun
  · rename_i rest
    refine List.forall_mem_cons.mpr ⟨rfl, ?_⟩
    rw [← List.takeWhile_append_dropWhile (p := Char.isDigit) (l := rest), List.forall_mem_append]
    refine ⟨isDigit_of_takeWhile, ?_⟩
    simp only at read
    split at read
    · cases read
    · split at read
      · rename_i gone
        rw [gone]
        exact nofun
      · rename_i c more found
        rw [found]
        exact power read
  · exact power read

/-- Digits come first, and there is at least one. -/
theorem numeric_of_body? {negative : Bool} {body : List Char}
    (read : (body? negative body).isSome = true) : body ≠ [] ∧ ∀ c ∈ body, isNumeric c = true := by
  unfold body? at read
  split at read
  · cases read
  · cases read
  · rename_i nonempty _
    refine ⟨fun empty => ?_, ?_⟩
    · rw [empty] at nonempty
      exact nonempty rfl
    · rw [← List.takeWhile_append_dropWhile (p := Char.isDigit) (l := body),
        List.forall_mem_append]
      exact ⟨isDigit_of_takeWhile, numeric_of_tail? read⟩

/-- A number literal has at least one character, and all are numeric. -/
theorem numeric_of_ofChars? {chars : List Char} (read : (ofChars? chars).isSome = true) :
    chars ≠ [] ∧ ∀ c ∈ chars, isNumeric c = true := by
  unfold ofChars? at read
  split at read
  · exact ⟨by simp, List.forall_mem_cons.mpr ⟨rfl, (numeric_of_body? read).2⟩⟩
  · exact numeric_of_body? read

/-! ### Digits -/

/-- Digits that may stand before the point: there is one at least, and no leading zero. -/
structure IsInteger (integer : List Char) : Prop where
  nonempty : integer ≠ []
  digits : ∀ c ∈ integer, c.isDigit = true
  noLeadingZero : ∀ second rest, integer ≠ '0' :: second :: rest

/-- The text does not go on with a digit. -/
def Ends (rest : List Char) : Prop :=
  ∀ c ∈ rest.head?, c.isDigit = false

theorem takeWhile_digits {digits rest : List Char} (all : ∀ c ∈ digits, c.isDigit = true)
    (ends : Ends rest) : (digits ++ rest).takeWhile Char.isDigit = digits := by
  rw [List.takeWhile_append_of_pos all]
  cases rest with
  | nil => simp
  | cons c rest => simp [ends c rfl]

theorem dropWhile_digits {digits rest : List Char} (all : ∀ c ∈ digits, c.isDigit = true)
    (ends : Ends rest) : (digits ++ rest).dropWhile Char.isDigit = rest := by
  rw [List.dropWhile_append_of_pos all]
  cases rest with
  | nil => rfl
  | cons c rest => simp [ends c rfl]

theorem body?_eq_tail? {digits rest : List Char} (integer : IsInteger digits) (ends : Ends rest)
    (negative : Bool) : body? negative (digits ++ rest) = tail? negative digits rest := by
  unfold body?
  rw [takeWhile_digits integer.digits ends, dropWhile_digits integer.digits ends]
  split
  · exact absurd rfl integer.nonempty
  · exact absurd rfl (integer.noLeadingZero _ _)
  · rfl

theorem isSome_ofChars?_of_body? {body : List Char} (read : (body? false body).isSome = true) :
    (ofChars? body).isSome = true := by
  unfold ofChars?
  split
  · cases read
  · exact read

theorem ofChars?_eq_tail? {digits rest : List Char} (integer : IsInteger digits)
    (ends : Ends rest) : ofChars? (digits ++ rest) = tail? false digits rest := by
  cases shape : digits with
  | nil => exact absurd shape integer.nonempty
  | cons first others =>
      have digit : first.isDigit = true := integer.digits first (by simp [shape])
      have unsigned : first ≠ '-' := by
        rintro rfl
        cases digit
      have read : ofChars? (first :: (others ++ rest)) = body? false (first :: (others ++ rest)) :=
        ofChars?.eq_2 _ fun _ same => unsigned (List.cons.inj same).1
      rw [List.cons_append, read, ← List.cons_append, ← shape]
      exact body?_eq_tail? integer ends false

/-! ### Natural numbers -/

theorem toDigits_ne_zero_cons {n : Nat} (positive : 0 < n) (rest : List Char) :
    Nat.toDigits 10 n ≠ '0' :: rest := by
  induction n using Nat.strongRecOn generalizing rest with
  | ind n ih =>
      rw [Nat.toDigits_eq_if (by decide)]
      by_cases small : n < 10
      · rw [if_pos small]
        intro same
        have zero := (List.cons.inj same).1
        rw [Nat.digitChar_eq_zero] at zero
        omega
      · rw [if_neg small]
        intro same
        cases shape : Nat.toDigits 10 (n / 10) with
        | nil => exact Nat.toDigits_ne_nil shape
        | cons first others =>
            rw [shape] at same
            have zero := (List.cons.inj same).1
            exact ih (n / 10) (by omega) (by omega) others (zero ▸ shape)

theorem isInteger_toDigits (n : Nat) : IsInteger (Nat.toDigits 10 n) where
  nonempty := Nat.toDigits_ne_nil
  digits _ := Nat.isDigit_of_mem_toDigits (by decide) (by decide)
  noLeadingZero second rest := by
    rcases Nat.eq_zero_or_pos n with rfl | positive
    · rw [Nat.toDigits_zero]
      simp
    · exact toDigits_ne_zero_cons positive _

theorem ofDigits_toDigits (n : Nat) : ofDigits (Nat.toDigits 10 n) = n := by
  have same : ofDigits (Nat.toDigits 10 n) = Nat.ofDigitChars 10 (Nat.toDigits 10 n) 0 := by
    rw [Nat.ofDigitChars_eq_foldl, ofDigits]
    simp only [Nat.mul_comm, digit]
  rw [same, Nat.ofDigitChars_ten_toDigits]

theorem ofChars?_toDigits (n : Nat) :
    ofChars? (Nat.toDigits 10 n) = some ⟨false, Nat.toDigits 10 n, none, none⟩ := by
  have read := ofChars?_eq_tail? (isInteger_toDigits n) (show Ends [] by simp [Ends])
  rw [List.append_nil] at read
  exact read

/-- A natural number of 64 bits is read back from its digits. -/
theorem toWord?_toDigits {n : Nat} (fits : n < wordLimit) :
    (ofChars? (Nat.toDigits 10 n)).bind toWord? = some n := by
  simp [ofChars?_toDigits, toWord?, ofDigits_toDigits, fits]

end ScriptHeap.Json.Numeral

/-! ### The digits of the shortest decimal -/

namespace ScriptHeap.Decimal

/-- The rational is at least `10^e`. -/
def Reaches (r : Ratio) (e : Int) : Prop :=
  (Ratio.scaled 1 10 e).le r = true

theorem reaches_of_nonneg {r : Ratio} {e : Int} (nonneg : 0 ≤ e) :
    Reaches r e ↔ Nat.pow 10 e.toNat * r.den ≤ r.num := by
  simp [Reaches, Ratio.scaled, nonneg, Ratio.le]

theorem reaches_of_neg {r : Ratio} {e : Int} (neg : ¬ 0 ≤ e) :
    Reaches r e ↔ r.den ≤ r.num * Nat.pow 10 (-e).toNat := by
  simp [Reaches, Ratio.scaled, neg, Ratio.le]

theorem Reaches.lower {r : Ratio} {e e' : Int} (reaches : Reaches r e) (below : e' ≤ e) :
    Reaches r e' := by
  have ten : 0 < 10 := by decide
  by_cases lower : 0 ≤ e'
  · have upper : 0 ≤ e := by omega
    rw [reaches_of_nonneg upper] at reaches
    rw [reaches_of_nonneg lower]
    refine Nat.le_trans (Nat.mul_le_mul_right _ ?_) reaches
    exact Nat.pow_le_pow_right ten (by omega)
  · rw [reaches_of_neg lower]
    by_cases upper : 0 ≤ e
    · rw [reaches_of_nonneg upper] at reaches
      calc r.den ≤ Nat.pow 10 e.toNat * r.den := Nat.le_mul_of_pos_left _ (Nat.pow_pos ten)
        _ ≤ r.num := reaches
        _ ≤ r.num * Nat.pow 10 (-e').toNat := Nat.le_mul_of_pos_right _ (Nat.pow_pos ten)
    · rw [reaches_of_neg upper] at reaches
      refine Nat.le_trans reaches (Nat.mul_le_mul_left _ ?_)
      exact Nat.pow_le_pow_right ten (by omega)

theorem Reaches.floorAt_pos {r : Ratio} {e : Int} (positive : 0 < r.den) (reaches : Reaches r e) :
    0 < floorAt r e := by
  unfold floorAt
  by_cases nonneg : 0 ≤ e
  · rw [reaches_of_nonneg nonneg, Nat.mul_comm] at reaches
    rw [if_pos nonneg]
    exact Nat.div_pos reaches (Nat.mul_pos positive (Nat.pow_pos (by decide)))
  · rw [reaches_of_neg nonneg] at reaches
    rw [if_neg nonneg]
    exact Nat.div_pos reaches positive

/-- The search for the leading digit ends at a power of ten that is reached, or at the last one. -/
theorem leadingExponent_cases (r : Ratio) (steps : Nat) (e : Int) :
    Reaches r (leadingExponent r steps e) ∨ leadingExponent r steps e = e - steps := by
  induction steps generalizing e with
  | zero => exact .inr (by simp [leadingExponent])
  | succ steps ih =>
      unfold leadingExponent
      by_cases reached : (Ratio.scaled 1 10 e).le r = true
      · rw [if_pos reached]
        exact .inl reached
      · rw [if_neg reached]
        refine (ih (e - 1)).imp_right fun last => last.trans ?_
        omega

theorem Binary.den_value_pos (b : Binary) : 0 < b.value.den := by
  unfold Binary.value Ratio.scaled
  by_cases nonneg : 0 ≤ b.exponent - 2
  · rw [if_pos nonneg]
    exact Nat.one_pos
  · rw [if_neg nonneg]
    exact Nat.pow_pos (by decide)

theorem Binary.exponent_of_ofBits? {bits : UInt64} {b : Binary} (known : ofBits? bits = some b) :
    -1074 ≤ b.exponent := by
  unfold ofBits? at known
  simp only at known
  split at known
  · cases known
  · split at known
    · cases known
      exact Int.le_refl _
    · cases known
      rename_i nonzero
      show -1074 ≤ ((_ : Nat) : Int) - 1075
      omega

/-- No double but zero is below the last power of ten that is tried. -/
theorem Binary.reaches_last {b : Binary} (nonzero : b.mantissa ≠ 0) (bounded : -1074 ≤ b.exponent) :
    Reaches b.value (309 - (640 : Nat)) := by
  rw [reaches_of_neg (by decide)]
  unfold Binary.value Ratio.scaled
  by_cases nonneg : 0 ≤ b.exponent - 2
  · rw [if_pos nonneg]
    have mantissa : 0 < 4 * b.mantissa := by omega
    have power : ∀ base n : Nat, 0 < base → 0 < Nat.pow base n := fun _ _ => Nat.pow_pos
    exact Nat.mul_pos (Nat.mul_pos mantissa (power _ _ (by decide))) (power _ _ (by decide))
  · rw [if_neg nonneg]
    obtain ⟨last, same, ten⟩ : ∃ last, last = 1076 ∧
        Nat.pow 2 last ≤ 1 * Nat.pow 10 (-(309 - (640 : Nat) : Int)).toNat :=
      ⟨_, rfl, by decide +kernel⟩
    have power : Nat.pow 2 (-(b.exponent - 2)).toNat ≤ Nat.pow 2 last :=
      Nat.pow_le_pow_right (by decide) (by omega)
    have mantissa : 1 ≤ 4 * b.mantissa := by omega
    exact Nat.le_trans power (Nat.le_trans ten (Nat.mul_le_mul_right _ mantissa))

theorem onGrid_digits {tie : Tie} {b : Binary} {e : Int} {d : Decimal}
    (found : onGrid tie b e = some d) : floorAt b.value e ≤ d.digits := by
  have pick : ∀ down up : Decimal, down.digits ≤ up.digits →
      down.digits ≤ (tie.pick down up).digits := by
    intro down up below
    cases tie with
    | up => exact below
    | toEven => by_cases even : down.digits % 2 = 0 <;> simp [Tie.pick, even, below]
  unfold onGrid at found
  simp only at found
  split at found
  · cases found
    exact Nat.le_refl _
  · cases found
    exact Nat.le_succ _
  · cases found
  · split at found
    · cases found
      exact Nat.le_refl _
    · cases found
      exact Nat.le_succ _
    · cases found
      exact pick ⟨_, e⟩ ⟨_, e⟩ (Nat.le_succ _)

theorem search_digits_pos (tie : Tie) {b : Binary} (steps : Nat) {e : Int}
    (reaches : Reaches b.value e) : 0 < (search tie b steps e).digits := by
  induction steps generalizing e with
  | zero => exact reaches.floorAt_pos b.den_value_pos
  | succ steps ih =>
      unfold search
      cases found : onGrid tie b e with
      | none => exact ih (reaches.lower (by omega))
      | some d =>
          have floor := reaches.floorAt_pos b.den_value_pos
          exact Nat.lt_of_lt_of_le floor (onGrid_digits found)

theorem normalize_digits_pos (steps : Nat) {d : Decimal} (positive : 0 < d.digits) :
    0 < (normalize steps d).digits := by
  induction steps generalizing d with
  | zero => exact positive
  | succ steps ih =>
      unfold normalize
      by_cases trailing : d.digits ≠ 0 ∧ d.digits % 10 = 0
      · rw [if_pos trailing]
        exact ih (show 0 < d.digits / 10 by omega)
      · rw [if_neg trailing]
        exact positive

/-- The decimal of a double has no digits but zero only where it is zero. -/
theorem digits_of_ofFloat? {tie : Tie} {x : Float} {d : Decimal} (known : ofFloat? tie x = some d) :
    0 < d.digits ∨ d = ⟨0, 0⟩ := by
  obtain ⟨b, bits, rfl⟩ := Option.map_eq_some_iff.mp known
  unfold shortest
  by_cases zero : b.mantissa = 0
  · rw [if_pos zero]
    exact .inr rfl
  · rw [if_neg zero]
    refine .inl (normalize_digits_pos 20 (search_digits_pos tie 17 ?_))
    rcases leadingExponent_cases b.value 640 309 with reached | last
    · exact reached
    · rw [last]
      exact Binary.reaches_last zero (Binary.exponent_of_ofBits? bits)

end ScriptHeap.Decimal

/-! ### Finite doubles -/

namespace ScriptHeap.Json.Numeral

open Decimal

variable {negative : Bool} {integer fraction power : List Char}

theorem isSome_tail?_fraction (nonempty : fraction ≠ [])
    (digits : ∀ c ∈ fraction, c.isDigit = true) :
    (tail? negative integer ('.' :: fraction)).isSome = true := by
  have taken := takeWhile_digits digits (show Ends [] by simp [Ends])
  have dropped := dropWhile_digits digits (show Ends [] by simp [Ends])
  rw [List.append_nil] at taken dropped
  simp [tail?, taken, dropped, nonempty]

theorem isSome_tail?_exponent (read : (exponent? power).isSome = true) :
    (tail? negative integer ('e' :: power)).isSome = true := by
  simp [tail?, read]

theorem isSome_tail?_both (nonempty : fraction ≠ []) (digits : ∀ c ∈ fraction, c.isDigit = true)
    (read : (exponent? power).isSome = true) :
    (tail? negative integer ('.' :: (fraction ++ 'e' :: power))).isSome = true := by
  have ends : Ends ('e' :: power) := by
    rintro c ⟨⟩
    rfl
  simp [tail?, takeWhile_digits digits ends, dropWhile_digits digits ends, nonempty, read]

theorem isSome_exponent? (sign : Char) (signed : sign = '-' ∨ sign = '+') (n : Nat) :
    (exponent? (sign :: Nat.toDigits 10 n)).isSome = true := by
  have digits : (exponent?.magnitude? (Nat.toDigits 10 n)).isSome = true := by
    have all : (Nat.toDigits 10 n).all Char.isDigit = true :=
      List.all_eq_true.mpr fun _ => Nat.isDigit_of_mem_toDigits (by decide) (by decide)
    simp [exponent?.magnitude?, all, Nat.toDigits_ne_nil]
  rcases signed with rfl | rfl
  · simpa [exponent?] using digits
  · simpa [exponent?] using digits

theorem ends_point (rest : List Char) : Ends ('.' :: rest) := by
  rintro c ⟨⟩
  rfl

theorem isDigit_digitText {d : Decimal} : ∀ c ∈ d.digitText, c.isDigit = true :=
  fun _ => Nat.isDigit_of_mem_toDigits (by decide) (by decide)

theorem isDigit_zeros {n : Nat} : ∀ c ∈ List.replicate n '0', c.isDigit = true := by
  intro c member
  rw [List.eq_of_mem_replicate member]
  rfl

/-- Digits that begin the digits of a number have no leading zero either. -/
theorem isInteger_take {n k : Nat} (positive : 0 < n) (some : k ≠ 0) :
    IsInteger ((Nat.toDigits 10 n).take k) where
  nonempty := by simp [some, Nat.toDigits_ne_nil]
  digits c member :=
    Nat.isDigit_of_mem_toDigits (by decide) (by decide) (List.mem_of_mem_take member)
  noLeadingZero second rest same := by
    have whole := List.take_append_drop k (Nat.toDigits 10 n)
    rw [same] at whole
    exact toDigits_ne_zero_cons positive _ whole.symm

theorem isInteger_zeros {n : Nat} (positive : 0 < n) (k : Nat) :
    IsInteger (Nat.toDigits 10 n ++ List.replicate k '0') where
  nonempty := by simp [Nat.toDigits_ne_nil]
  digits := List.forall_mem_append.mpr ⟨(isInteger_toDigits n).digits, isDigit_zeros⟩
  noLeadingZero second rest same := by
    cases shape : Nat.toDigits 10 n with
    | nil => exact Nat.toDigits_ne_nil shape
    | cons first others =>
        rw [shape] at same
        exact toDigits_ne_zero_cons positive others ((List.cons.inj same).1 ▸ shape)

/-- With its point in place, a decimal is a number literal. -/
theorem isSome_positionalText {d : Decimal} (reduced : 0 < d.digits ∨ d = ⟨0, 0⟩) :
    (body? negative (positionalText true d)).isSome = true := by
  rcases reduced with positive | rfl
  · unfold positionalText
    by_cases whole : 0 ≤ d.exponent
    · rw [if_pos whole]
      show (body? negative (Nat.toDigits 10 d.digits ++ _ ++ ['.', '0'])).isSome = true
      rw [body?_eq_tail? (isInteger_zeros positive _) (ends_point _)]
      exact isSome_tail?_fraction (by simp) (List.all_eq_true.mp rfl)
    · rw [if_neg whole]
      by_cases above : 0 ≤ d.lead
      · rw [if_pos above]
        have shorter : d.lead.toNat + 1 < d.digitText.length := by
          unfold lead at above ⊢
          omega
        have front : IsInteger (d.digitText.take (d.lead.toNat + 1)) :=
          isInteger_take positive (Nat.succ_ne_zero _)
        rw [body?_eq_tail? front (ends_point _)]
        apply isSome_tail?_fraction
        · rw [ne_eq, List.drop_eq_nil_iff]
          omega
        · exact fun c member => isDigit_digitText c (List.mem_of_mem_drop member)
      · rw [if_neg above]
        have zero : IsInteger ['0'] := ⟨by simp, List.all_eq_true.mp rfl, by simp⟩
        refine (congrArg Option.isSome (body?_eq_tail? zero (ends_point _) negative)).trans ?_
        exact isSome_tail?_fraction (by simp [digitText, Nat.toDigits_ne_nil])
          (List.forall_mem_append.mpr ⟨isDigit_zeros, isDigit_digitText⟩)
  · cases negative <;> decide

/-- In exponent form, a decimal is a number literal. -/
theorem isSome_exponentText (d : Decimal) :
    (body? negative (exponentText d)).isSome = true := by
  have power : (exponent? ((if d.lead < 0 then '-' else '+') ::
      Nat.toDigits 10 d.lead.natAbs)).isSome = true := by
    refine isSome_exponent? _ ?_ _
    by_cases below : d.lead < 0 <;> simp [below]
  have digits := isDigit_digitText (d := d)
  have ends : ∀ rest, Ends ('e' :: rest) := by
    rintro rest c ⟨⟩
    rfl
  unfold exponentText
  simp only
  cases shape : d.digitText with
  | nil => exact absurd shape Nat.toDigits_ne_nil
  | cons first others =>
      rw [shape] at digits
      have one : IsInteger [first] := ⟨by simp, fun c member => digits c (by simp_all), by simp⟩
      cases others with
      | nil =>
          refine (congrArg Option.isSome (body?_eq_tail? one (ends _) negative)).trans ?_
          exact isSome_tail?_exponent power
      | cons second rest =>
          refine (congrArg Option.isSome (body?_eq_tail? one (ends_point _) negative)).trans ?_
          exact isSome_tail?_both (List.cons_ne_nil second rest)
            (fun c member => digits c (List.mem_cons_of_mem _ member)) power

/-- Every finite double is written in data as a number literal. -/
theorem isSome_data_text {x : Float} (finite : (Binary.ofBits? x.toBits).isSome = true) :
    (ofChars? (Layout.data.text x).toList).isSome = true := by
  obtain ⟨b, bits⟩ := Option.isSome_iff_exists.mp finite
  have known : ofFloat? .toEven x = some (shortest .toEven b) := by simp [ofFloat?, bits]
  have body : ∀ negative, (body? negative
      (if Layout.data.positional (shortest .toEven b).lead then
        positionalText true (shortest .toEven b)
      else exponentText (shortest .toEven b))).isSome = true := by
    intro negative
    by_cases inPlace : Layout.data.positional (shortest .toEven b).lead = true
    · rw [if_pos inPlace]
      exact isSome_positionalText (digits_of_ofFloat? known)
    · rw [if_neg inPlace]
      exact isSome_exponentText _
  unfold Layout.text
  rw [show ofFloat? Layout.data.tie x = _ from known]
  simp only [String.toList_ofList]
  by_cases signed : x.toBits.toNat / Nat.pow 2 63 = 1
  · rw [if_pos signed]
    exact body true
  · rw [if_neg signed, List.nil_append]
    exact isSome_ofChars?_of_body? (body false)

end ScriptHeap.Json.Numeral
