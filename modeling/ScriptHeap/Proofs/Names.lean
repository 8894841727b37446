import Mathlib.Data.List.Nodup
import ScriptHeap.Proofs.Lookup
import ScriptHeap.State.Printer

/-!
# Printed names

Labels and keys can be told apart by their texts. The text of a label is read from both ends: the
kind is the word in front, which an angle bracket or a number sign ends, and the node is the number
at the end, which the letter before it ends. What is left is the class name, whatever it is made of.
The text of a key shows by its first character whether it is plain, quoted or a symbol, and no
escape of a character is the start of another one (`Text.escapeChar_append_inj`).

So a state that is written down lists its objects under texts that are all distinct, and leaves none
of them out (`State.texts_unambiguous`).
-/

namespace ScriptHeap

namespace Text

/-! ### Words and numbers -/

/-- A word that is made of characters of one class ends before the first character of another. -/
theorem word_inj {α : Type} {p : α → Bool} {xs ys left right : List α} {a b : α}
    (inside : ∀ c ∈ xs, p c = true) (inside' : ∀ c ∈ ys, p c = true) (outside : p a = false)
    (outside' : p b = false) (same : xs ++ a :: left = ys ++ b :: right) :
    xs = ys ∧ a = b ∧ left = right := by
  induction xs generalizing ys with
  | nil =>
      cases ys with
      | nil => simpa using same
      | cons y ys =>
          obtain ⟨rfl, _⟩ := List.cons.inj same
          rw [inside' a List.mem_cons_self] at outside
          cases outside
  | cons x xs ih =>
      cases ys with
      | nil =>
          obtain ⟨rfl, _⟩ := List.cons.inj same
          rw [inside x List.mem_cons_self] at outside'
          cases outside'
      | cons y ys =>
          obtain ⟨rfl, rest⟩ := List.cons.inj same
          obtain ⟨rfl, ends⟩ := ih (fun c member => inside c (List.mem_cons_of_mem _ member))
            (fun c member => inside' c (List.mem_cons_of_mem _ member)) rest
          exact ⟨rfl, ends⟩

theorem digitChar_inj : ∀ m < 16, ∀ n < 16, Nat.digitChar m = Nat.digitChar n → m = n := by
  decide

theorem toDigits_eq_append {b : Nat} (base : 1 < b) (n : Nat) :
    Nat.toDigits b n =
      (if n < b then [] else Nat.toDigits b (n / b)) ++ [Nat.digitChar (n % b)] := by
  rw [Nat.toDigits_eq_if base]
  split
  · rename_i small
    rw [Nat.mod_eq_of_lt small]
    rfl
  · rfl

/-- Numbers are told apart by their digits, which are compared from the last one on. -/
theorem toDigits_injective {b : Nat} (base : 1 < b) (sixteen : b ≤ 16) :
    Function.Injective (Nat.toDigits b) := by
  intro m
  induction m using Nat.strongRecOn with
  | ind m ih =>
      intro n same
      rw [toDigits_eq_append base m, toDigits_eq_append base n] at same
      obtain ⟨before, last⟩ := List.append_inj' same rfl
      have positive : 0 < b := Nat.lt_of_succ_lt base
      have lasts : m % b = n % b :=
        digitChar_inj _ (Nat.lt_of_lt_of_le (Nat.mod_lt m positive) sixteen) _
          (Nat.lt_of_lt_of_le (Nat.mod_lt n positive) sixteen) (List.cons.inj last).1
      have quotients : m / b = n / b := by
        by_cases smallM : m < b <;> by_cases smallN : n < b
        · rw [Nat.div_eq_of_lt smallM, Nat.div_eq_of_lt smallN]
        · rw [if_pos smallM, if_neg smallN] at before
          exact absurd before.symm Nat.toDigits_ne_nil
        · rw [if_neg smallM, if_pos smallN] at before
          exact absurd before Nat.toDigits_ne_nil
        · rw [if_neg smallM, if_neg smallN] at before
          exact ih (m / b) (Nat.div_lt_self (by omega) base) before
      rw [← Nat.div_add_mod m b, ← Nat.div_add_mod n b, quotients, lasts]

/-- The decimal number at the end of a text is read backwards, up to what is no digit. -/
theorem number_at_end_inj {xs ys : List Char} {mark : Char} (noDigit : mark.isDigit = false)
    {m n : Nat} (same : xs ++ mark :: Nat.toDigits 10 m = ys ++ mark :: Nat.toDigits 10 n) :
    xs = ys ∧ m = n := by
  have backwards := congrArg List.reverse same
  simp only [List.reverse_append, List.reverse_cons, List.append_assoc, List.singleton_append]
    at backwards
  have digits : ∀ k : Nat, ∀ c ∈ (Nat.toDigits 10 k).reverse, c.isDigit = true :=
    fun k c member =>
      Nat.isDigit_of_mem_toDigits (by decide) (by decide) (List.mem_reverse.mp member)
  obtain ⟨numbers, _, before⟩ := word_inj (digits m) (digits n) noDigit noDigit backwards
  exact ⟨List.reverse_injective before,
    toDigits_injective (by decide) (by decide) (List.reverse_injective numbers)⟩

/-! ### Quoted texts -/

/-- The character that a letter after a backslash stands for. -/
def meantBy (letter : Char) : Char :=
  match letter with
  | 't' => '\t'
  | 'r' => '\r'
  | 'n' => '\n'
  | _ => letter

/-- A character is written as a letter after a backslash, as it is, or by its code point. -/
theorem escapeChar_cases (c : Char) :
    (∃ letter, escapeChar c = ['\\', letter] ∧ letter ≠ 'u' ∧ meantBy letter = c) ∨
      (c ≠ '\\' ∧ escapeChar c = [c]) ∨
      escapeChar c = '\\' :: 'u' :: '\x7b' :: (Nat.toDigits 16 c.toNat ++ ['\x7d']) := by
  unfold escapeChar
  split
  · exact .inl ⟨'t', rfl, by decide, rfl⟩
  · exact .inl ⟨'r', rfl, by decide, rfl⟩
  · exact .inl ⟨'n', rfl, by decide, rfl⟩
  · exact .inl ⟨'\'', rfl, by decide, rfl⟩
  · exact .inl ⟨'"', rfl, by decide, rfl⟩
  · exact .inl ⟨'\\', rfl, by decide, rfl⟩
  · rename_i noBackslash
    split
    · exact .inr (.inl ⟨noBackslash, rfl⟩)
    · exact .inr (.inr rfl)

theorem digitChar_ne_brace : ∀ d < 16, Nat.digitChar d ≠ '\x7d' := by
  decide

theorem ne_brace_of_mem_toDigits (n : Nat) : ∀ c ∈ Nat.toDigits 16 n, (c != '\x7d') = true := by
  induction n using Nat.strongRecOn with
  | ind n ih =>
      intro c member
      rw [toDigits_eq_append (by decide)] at member
      rcases List.mem_append.mp member with before | last
      · split at before
        · cases before
        · exact ih (n / 16) (by omega) c before
      · rw [List.mem_singleton.mp last, bne_iff_ne]
        exact digitChar_ne_brace _ (Nat.mod_lt n (by decide))

/-- No escape is the start of another one. -/
theorem escapeChar_append_inj {c d : Char} {left right : List Char}
    (same : escapeChar c ++ left = escapeChar d ++ right) : c = d ∧ left = right := by
  -- The first character tells an escape from a character that is written as it is, and the second
  -- one tells the two sorts of escapes apart.
  rcases escapeChar_cases c with ⟨letter, written, noCode, rfl⟩ | ⟨noBackslash, written⟩ |
      written <;>
    rcases escapeChar_cases d with ⟨letter', written', noCode', rfl⟩ | ⟨noBackslash', written'⟩ |
      written' <;>
    simp only [written, written', List.cons_append, List.nil_append] at same <;>
    obtain ⟨first, others⟩ := List.cons.inj same
  · obtain ⟨rfl, rest⟩ := List.cons.inj others
    exact ⟨rfl, rest⟩
  · exact absurd first.symm noBackslash'
  · exact absurd (List.cons.inj others).1 noCode
  · exact absurd first noBackslash
  · exact ⟨first, others⟩
  · exact absurd first noBackslash
  · exact absurd (List.cons.inj others).1.symm noCode'
  · exact absurd first.symm noBackslash'
  · -- Of two code points, the digits end at the closing brace.
    have codes := (List.cons.inj (List.cons.inj others).2).2
    rw [List.append_assoc, List.append_assoc] at codes
    obtain ⟨digits, _, rest⟩ := word_inj (ne_brace_of_mem_toDigits c.toNat)
      (ne_brace_of_mem_toDigits d.toNat) (by decide) (by decide) codes
    exact ⟨Char.toNat_inj.mp (toDigits_injective (by decide) (by decide) digits), rest⟩

theorem escapeChar_ne_nil (c : Char) : escapeChar c ≠ [] := by
  rcases escapeChar_cases c with ⟨_, written, _⟩ | ⟨_, written⟩ | written <;> simp [written]

theorem flatMap_escapeChar_injective :
    Function.Injective fun s : List Char => s.flatMap escapeChar := by
  intro s t same
  replace same : s.flatMap escapeChar = t.flatMap escapeChar := same
  induction s generalizing t with
  | nil =>
      cases t with
      | nil => rfl
      | cons d t => simp [escapeChar_ne_nil] at same
  | cons c s ih =>
      cases t with
      | nil => simp [escapeChar_ne_nil] at same
      | cons d t =>
          rw [List.flatMap_cons, List.flatMap_cons] at same
          obtain ⟨rfl, rest⟩ := escapeChar_append_inj same
          rw [ih rest]

theorem toList_quoted (s : String) :
    (quoted s).toList = '"' :: (s.toList.flatMap escapeChar ++ ['"']) := by
  simp [quoted, escape]

theorem quoted_injective : Function.Injective quoted := by
  intro s t same
  have chars := congrArg String.toList same
  rw [toList_quoted, toList_quoted] at chars
  exact String.toList_inj.mp
    (flatMap_escapeChar_injective (List.append_cancel_right (List.cons.inj chars).2))

end Text

/-! ### Labels -/

namespace Kind

theorem find?_name (kind : Kind) :
    all.find? (fun other => other.name == kind.name) = some kind := by
  cases kind <;> rfl

theorem name_injective : Function.Injective name := by
  intro a b same
  have found := find?_name a
  rw [same, find?_name b] at found
  exact (Option.some.inj found).symm

theorem isAlpha_of_mem_name (kind : Kind) : ∀ c ∈ kind.name.toList, c.isAlpha = true := by
  rw [← List.all_eq_true]
  cases kind <;> rfl

end Kind

namespace Label

open Text

/-- What follows the kind in the text of a label: the character that ends the kind, and the rest. -/
def afterKind (label : Label) : Char × List Char :=
  match label.className with
  | none => ('#', ['n', 'o', 'd'] ++ 'e' :: Nat.toDigits 10 label.node)
  | some name =>
    ('<', (name.toList ++ ['>', '#', 'n', 'o', 'd']) ++ 'e' :: Nat.toDigits 10 label.node)

theorem toList_text (label : Label) :
    label.text.toList =
      '@' :: (label.kind.name.toList ++ label.afterKind.1 :: label.afterKind.2) := by
  obtain ⟨node, kind, name⟩ := label
  cases name <;> simp [text, afterKind]

theorem isAlpha_afterKind (label : Label) : label.afterKind.1.isAlpha = false := by
  obtain ⟨node, kind, name⟩ := label
  cases name <;> rfl

theorem text_injective : Function.Injective text := by
  intro a b same
  have chars := congrArg String.toList same
  rw [toList_text, toList_text] at chars
  obtain ⟨kinds, endings, rest⟩ := word_inj a.kind.isAlpha_of_mem_name b.kind.isAlpha_of_mem_name
    a.isAlpha_afterKind b.isAlpha_afterKind (List.cons.inj chars).2
  have sameKind : a.kind = b.kind := Kind.name_injective (String.toList_inj.mp kinds)
  obtain ⟨node, kind, name⟩ := a
  obtain ⟨node', kind', name'⟩ := b
  subst sameKind
  -- The character after the kind tells whether there is a class name.
  cases name with
  | none =>
      cases name' with
      | none =>
          obtain ⟨_, rfl⟩ := number_at_end_inj (by decide) rest
          rfl
      | some other => exact absurd endings (by simp [afterKind])
  | some name =>
      cases name' with
      | none => exact absurd endings (by simp [afterKind])
      | some other =>
          obtain ⟨names, rfl⟩ := number_at_end_inj (by decide) rest
          rw [String.toList_inj.mp (List.append_cancel_right names)]

end Label

/-! ### Keys -/

namespace Key

/-- The three forms of a text: a plain name has no quote and no bracket in it. -/
theorem literal_cases (key : Key) :
    (∃ s, key = .name s ∧ key.literal = s ∧ '"' ∉ s.toList ∧ '[' ∉ s.toList) ∨
      (∃ s, key = .name s ∧ key.literal = Text.quoted s) ∨
      ∃ label, key = .symbol label ∧ key.literal = "[" ++ label.text ++ "]" := by
  cases key with
  | symbol label => exact .inr (.inr ⟨label, rfl, rfl⟩)
  | name s =>
      by_cases plain : isPlain s = true
      · have each : ∀ c ∈ s.toList, (c.isAlphanum || c == '_' || c == '$') = true :=
          List.all_eq_true.mp (Bool.and_eq_true_iff.mp plain).2
        exact .inl ⟨s, rfl, if_pos plain, fun quote => absurd (each _ quote) (by decide),
          fun bracket => absurd (each _ bracket) (by decide)⟩
      · exact .inr (.inl ⟨s, rfl, if_neg plain⟩)

theorem toList_bracketed (label : Label) :
    ("[" ++ label.text ++ "]").toList = '[' :: (label.text.toList ++ [']']) := by
  simp

theorem literal_injective : Function.Injective literal := by
  intro a b same
  rcases literal_cases a with ⟨s, rfl, written, noQuote, noBracket⟩ | ⟨s, rfl, written⟩ |
      ⟨label, rfl, written⟩ <;>
    rcases literal_cases b with ⟨t, rfl, written', noQuote', noBracket'⟩ | ⟨t, rfl, written'⟩ |
      ⟨label', rfl, written'⟩ <;>
    rw [written, written'] at same
  · rw [same]
  · subst same
    exact absurd (by simp [Text.toList_quoted]) noQuote
  · subst same
    exact absurd (by simp) noBracket
  · subst same
    exact absurd (by simp [Text.toList_quoted]) noQuote'
  · rw [Text.quoted_injective same]
  · have chars := congrArg String.toList same
    rw [Text.toList_quoted, toList_bracketed] at chars
    exact absurd (List.cons.inj chars).1 (by decide)
  · subst same
    exact absurd (by simp) noBracket'
  · have chars := congrArg String.toList same
    rw [Text.toList_quoted, toList_bracketed] at chars
    exact absurd (List.cons.inj chars).1 (by decide)
  · have chars := congrArg String.toList same
    rw [toList_bracketed, toList_bracketed] at chars
    have texts := List.append_cancel_right (List.cons.inj chars).2
    rw [Label.text_injective (String.toList_inj.mp texts)]

end Key

/-! ### Heaps under texts -/

namespace FinMap

universe u v

variable {κ : Type u} {ν : Type v} [Ord κ] [DecidableEq κ] [Std.TransOrd κ] [Std.LawfulEqOrd κ]

/-- The map of entries with distinct keys has these entries, in its own order. -/
theorem perm_toList_ofList {entries : List (κ × ν)} (distinct : (entries.map Prod.fst).Nodup) :
    (ofList entries).toList.Perm entries := by
  rw [List.perm_ext_iff_of_nodup (nodup_keys (ofList entries)).of_map distinct.of_map]
  rintro ⟨key, value⟩
  rw [mem_toList_iff]
  refine ⟨mem_of_get?_ofList, fun member => ?_⟩
  -- Some entry of this key stays, and there is but one.
  have listed : (entries.filter fun entry => entry.1 = key) ≠ [] :=
    List.ne_nil_of_mem (List.mem_filter.mpr ⟨member, by simp⟩)
  obtain ⟨kept, found⟩ : ∃ kept, (ofList entries).get? key = some kept := by
    rw [get?_ofList_eq_getLast?]
    exact Option.isSome_iff_exists.mp (by simpa using listed)
  have same := List.inj_on_of_nodup_map distinct (mem_of_get?_ofList found) member rfl
  rw [found, (Prod.mk.inj same).2]

end FinMap

namespace State

theorem perm_titledHeap (s : State) :
    s.titledHeap.toList.Perm (s.heap.toList.map fun entry => (entry.1.text, entry.2.object)) := by
  refine FinMap.perm_toList_ofList ?_
  have titles : (s.heap.toList.map fun entry => (entry.1.text, entry.2.object)).map Prod.fst =
      s.heap.keys.map Label.text := by
    simp [FinMap.keys]
  rw [titles]
  exact s.heap.nodup_keys.map Label.text_injective

/-- Labels have equal texts only if they are equal, and so have keys. Hence a state that is written
    down has its objects under distinct names: each object of the heap under the text of its label,
    and no other. -/
theorem texts_unambiguous :
    (∀ a b : Label, a.text = b.text ↔ a = b) ∧
    (∀ a b : Key, a.literal = b.literal ↔ a = b) ∧
    ∀ s : State, ∃ registers objects,
      s.toJson = .record [("context", s.context.toJson), ("function", .nat s.function),
        ("registers", registers), ("heap", .record objects)] ∧
      (objects.map Prod.fst).Nodup ∧
      objects.Perm
        (s.heap.toList.map fun entry => (entry.1.text, entry.2.object.shape.toJson)) := by
  refine ⟨fun a b => Label.text_injective.eq_iff, fun a b => Key.literal_injective.eq_iff,
    fun s => ⟨_, _, rfl, ?_, ?_⟩⟩
  · have titles : (s.titledHeap.toList.map fun entry => (entry.1, entry.2.shape.toJson)).map
        Prod.fst = s.titledHeap.keys := by
      simp [FinMap.keys]
    rw [titles]
    exact s.titledHeap.nodup_keys
  · have written := s.perm_titledHeap.map fun entry => (entry.1, entry.2.shape.toJson)
    rw [List.map_map] at written
    exact written

end State

end ScriptHeap
