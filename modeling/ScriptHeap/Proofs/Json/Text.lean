import ScriptHeap.Json.Reader
import ScriptHeap.Json.Writer
import ScriptHeap.Proofs.Json.Numeral

/-!
# Reading back JSON text

The text of a value is cut into the lexemes that the value is made of (`scan_compact`), and the
machine of the reader puts the value together from them (`run_lexemes`). So a value is read back
from its text without blanks (`parse?_compact`), provided that it can be written at all: its number
literals are number literals, its strings have a text, and its field names know whether they are
written with an escape.
-/

namespace ScriptHeap.Json

open Lexeme

/-! ### Values that can be written -/

/-- A field name as it is read back. -/
def FieldName.Faithful (name : FieldName) : Prop :=
  ∃ s, name = ⟨some s, hasEscape s⟩

mutual

/-- The value can be read back from its text. -/
def Writable : Json → Prop
  | .null => True
  | .bool _ => True
  | .number lit => (Numeral.ofChars? lit.toList).isSome = true
  | .string s => s.isSome = true
  | .array items => WritableItems items
  | .object fields => WritableFields fields

def WritableItems : List Json → Prop
  | [] => True
  | v :: rest => Writable v ∧ WritableItems rest

def WritableFields : List (FieldName × Json) → Prop
  | [] => True
  | (name, v) :: rest => name.Faithful ∧ Writable v ∧ WritableFields rest

end

/-! ### String literals -/

/-- A character is written as a letter after a backslash, by its code point, or as it is. -/
theorem escapeChar_cases (c : Char) :
    (∃ e, escapeChar c = ['\\', e] ∧ e ≠ 'u' ∧ shortEscape? e = some c) ∨
      (c < ' ' ∧ escapeChar c = '\\' :: 'u' :: '0' :: '0' :: Nat.digitChar (c.toNat / 16) ::
        [Nat.digitChar (c.toNat % 16)]) ∨
      (c ≠ '"' ∧ c ≠ '\\' ∧ ¬ c < ' ' ∧ escapeChar c = [c]) := by
  unfold escapeChar
  split
  · exact .inl ⟨'"', rfl, by decide, rfl⟩
  · exact .inl ⟨'\\', rfl, by decide, rfl⟩
  · exact .inl ⟨'b', rfl, by decide, rfl⟩
  · exact .inl ⟨'t', rfl, by decide, rfl⟩
  · exact .inl ⟨'n', rfl, by decide, rfl⟩
  · exact .inl ⟨'f', rfl, by decide, rfl⟩
  · exact .inl ⟨'r', rfl, by decide, rfl⟩
  · rename_i noQuote noBackslash _ _ _ _ _
    by_cases control : c < ' '
    · exact .inr (.inl ⟨control, if_pos control⟩)
    · exact .inr (.inr ⟨noQuote, noBackslash, control, if_neg control⟩)

/-- The code point of a control character is read back. -/
theorem hex4?_control {n : Nat} (control : n < 32) :
    hex4? '0' '0' (Nat.digitChar (n / 16)) (Nat.digitChar (n % 16)) = some n := by
  revert n
  decide

theorem scan_escapeChar (acc : List Char) (escaped : Bool) (c : Char) (out : List Lexeme)
    (rest : List Char) :
    scan (.text ⟨some acc, none, escaped⟩) out (escapeChar c ++ rest) =
      scan (.text ⟨some (c :: acc), none, escaped || escapes c⟩) out rest := by
  rcases escapeChar_cases c with ⟨e, written, letter, read⟩ | ⟨control, written⟩ |
    ⟨noQuote, noBackslash, visible, written⟩
  · have marked : escapes c = true := by simp [escapes, written]
    rw [written, marked]
    show scan _ out ('\\' :: e :: rest) = _
    rw [scan.eq_7 _ _ _ _ fun _ _ _ _ _ same => absurd same letter, read]
    simp [Draft.escape, Draft.push]
  · have marked : escapes c = true := by simp [escapes, written]
    have below : c.toNat < 32 := control
    rw [written, marked]
    show scan _ out ('\\' :: 'u' :: '0' :: '0' :: _ :: _ :: rest) = _
    rw [scan.eq_6, hex4?_control below]
    have low : ¬ (0xD800 ≤ c.toNat ∧ c.toNat ≤ 0xDBFF) := by omega
    have high : ¬ (0xDC00 ≤ c.toNat ∧ c.toNat ≤ 0xDFFF) := by omega
    simp only [Draft.escape, Draft.pushUnit, if_neg low, if_neg high, Draft.push, Char.ofNat_toNat,
      Option.map_some, Bool.or_true]
  · have plain : escapes c = false := by simp [escapes, written]
    rw [written, plain]
    show scan _ out (c :: rest) = _
    rw [scan.eq_8 _ _ _ _ (fun _ _ _ _ _ same => absurd same noBackslash)
      (fun _ _ same => absurd same noBackslash), if_neg noQuote,
      if_neg (by simp [visible, noBackslash])]
    simp [Draft.push]

theorem scan_escapeChars (chars acc : List Char) (escaped : Bool) (out : List Lexeme)
    (rest : List Char) :
    scan (.text ⟨some acc, none, escaped⟩) out (chars.flatMap escapeChar ++ rest) =
      scan (.text ⟨some (chars.reverse ++ acc), none, escaped || chars.any escapes⟩) out rest := by
  induction chars generalizing acc escaped with
  | nil => simp
  | cons c chars ih =>
      rw [List.flatMap_cons, List.append_assoc, scan_escapeChar, ih]
      simp [Bool.or_assoc]

/-- A string literal is one lexeme. -/
theorem scan_literal (s : String) (out : List Lexeme) (rest : List Char) :
    scan .between out ((literal s).toList ++ rest) =
      scan .between (.text (some s) (hasEscape s) :: out) rest := by
  have opened : ∀ more, scan .between out ('"' :: more) = scan (.text {}) out more := fun _ => rfl
  have shape : (literal s).toList ++ rest =
      '"' :: (s.toList.flatMap escapeChar ++ '"' :: rest) := by simp [literal]
  rw [shape, opened, scan_escapeChars, scan.eq_8 _ _ _ _ (by simp) (by simp), if_pos rfl]
  simp [Draft.finish, hasEscape]

/-! ### Bare words -/

/-- Whether a character may stand in a bare word. -/
def isBare (c : Char) : Bool :=
  !(isBlank c || c = '"' || (punctuation? c).isSome)

/-- The text does not go on with a bare word. -/
def Delimited (rest : List Char) : Prop :=
  ∀ c ∈ rest.head?, isBare c = false

theorem scan_word (word acc : List Char) (bare : ∀ c ∈ word, isBare c = true) (out : List Lexeme)
    (rest : List Char) :
    scan (.word acc) out (word ++ rest) = scan (.word (word.reverse ++ acc)) out rest := by
  induction word generalizing acc with
  | nil => rfl
  | cons c word ih =>
      obtain ⟨first, others⟩ := List.forall_mem_cons.mp bare
      have goesOn : ¬ (isBlank c || decide (c = '"') || (punctuation? c).isSome) = true := by
        simpa [isBare] using first
      rw [List.cons_append, scan.eq_5, if_neg goesOn, ih _ others]
      simp

theorem scan_word_end (acc : List Char) (out : List Lexeme) {rest : List Char}
    (delimited : Delimited rest) :
    scan (.word acc) out rest = scan .between (.word acc.reverse :: out) rest := by
  cases rest with
  | nil => rfl
  | cons c rest =>
      have ends : (isBlank c || decide (c = '"') || (punctuation? c).isSome) = true := by
        simpa only [isBare, Bool.not_eq_false'] using delimited c rfl
      rw [scan.eq_5, if_pos ends, scan.eq_4]

/-- A bare word is one lexeme. -/
theorem scan_bareWord (word : List Char) (nonempty : word ≠ [])
    (bare : word.all isBare = true) (out : List Lexeme) {rest : List Char}
    (delimited : Delimited rest) :
    scan .between out (word ++ rest) = scan .between (.word word :: out) rest := by
  cases word with
  | nil => exact absurd rfl nonempty
  | cons c word =>
      obtain ⟨first, others⟩ := List.forall_mem_cons.mp (List.all_eq_true.mp bare)
      have begins : stepBetween c out = (.word [c], out) := by
        simp only [isBare, Bool.not_eq_true', Bool.or_eq_false_iff, decide_eq_false_iff_not,
          Option.isSome_eq_false_iff, Option.isNone_iff_eq_none] at first
        obtain ⟨⟨noBlank, noQuote⟩, noMark⟩ := first
        simp [stepBetween, noBlank, noQuote, noMark]
      rw [List.cons_append, scan.eq_4, begins]
      show scan (.word [c]) out (word ++ rest) = _
      rw [scan_word word [c] others, scan_word_end _ _ delimited]
      simp

theorem isBare_of_isDigit {c : Char} (digit : c.isDigit = true) : isBare c = true := by
  have noBlank : isBlank c = false := by
    simp only [isBlank, Bool.or_eq_false_iff, beq_eq_false_iff_ne]
    refine ⟨⟨⟨?_, ?_⟩, ?_⟩, ?_⟩ <;> (rintro rfl; cases digit)
  have noQuote : c ≠ '"' := by
    rintro rfl
    cases digit
  have noMark : punctuation? c = none := by
    unfold punctuation?
    split <;> first | rfl | cases digit
  simp [isBare, noBlank, noQuote, noMark]

theorem isBare_of_isNumeric {c : Char} (numeric : Numeral.isNumeric c = true) :
    isBare c = true := by
  rcases Bool.or_eq_true_iff.mp numeric with digit | sign
  · exact isBare_of_isDigit digit
  · simp only [List.contains_eq_mem, List.mem_cons, List.not_mem_nil, or_false,
      decide_eq_true_eq] at sign
    rcases sign with rfl | rfl | rfl | rfl | rfl <;> rfl

/-- A punctuation mark is one lexeme. -/
theorem scan_mark {c : Char} {lexeme : Lexeme}
    (begins : ∀ out, stepBetween c out = (.between, lexeme :: out)) (out : List Lexeme)
    (rest : List Char) : scan .between out (c :: rest) = scan .between (lexeme :: out) rest := by
  rw [scan.eq_4, begins]

/-! ### The lexemes of a value -/

mutual

/-- The lexemes of a value. -/
def lexemes : Json → List Lexeme
  | .null => [.word ['n', 'u', 'l', 'l']]
  | .bool true => [.word ['t', 'r', 'u', 'e']]
  | .bool false => [.word ['f', 'a', 'l', 's', 'e']]
  | .number lit => [.word lit.toList]
  | .string s => [.text (s.getD "") (hasEscape (s.getD ""))]
  | .array [] => [.openBracket, .closeBracket]
  | .array (v :: rest) => .openBracket :: (lexemes v ++ moreItems rest)
  | .object [] => [.openBrace, .closeBrace]
  | .object ((name, v) :: rest) =>
    .openBrace :: .text (name.text.getD "") (hasEscape (name.text.getD "")) :: .colon ::
      (lexemes v ++ moreFields rest)

/-- The lexemes of an array after one of its items. -/
def moreItems : List Json → List Lexeme
  | [] => [.closeBracket]
  | v :: rest => .comma :: (lexemes v ++ moreItems rest)

/-- The lexemes of an object after one of its fields. -/
def moreFields : List (FieldName × Json) → List Lexeme
  | [] => [.closeBrace]
  | (name, v) :: rest =>
    .comma :: .text (name.text.getD "") (hasEscape (name.text.getD "")) :: .colon ::
      (lexemes v ++ moreFields rest)

end

/-- The text of an array after one of its items. -/
def itemsText : List Json → List Char
  | [] => [']']
  | v :: rest => ',' :: ((compact v).toList ++ itemsText rest)

/-- The text of an object after one of its fields. -/
def fieldsText : List (FieldName × Json) → List Char
  | [] => ['\x7d']
  | (name, v) :: rest =>
    ',' :: ((textLiteral name.text).toList ++ ':' :: ((compact v).toList ++ fieldsText rest))

theorem toList_intercalate_items (v : Json) (rest : List Json) :
    (",".intercalate (compactItems (v :: rest))).toList ++ [']'] =
      (compact v).toList ++ itemsText rest := by
  induction rest generalizing v with
  | nil => simp [compactItems, itemsText]
  | cons w rest ih =>
      have more := ih w
      simp only [compactItems, String.toList_intercalate, List.map_cons] at more ⊢
      rw [List.intercalate_cons_cons, List.append_assoc, more]
      simp [itemsText]

theorem toList_intercalate_fields (name : FieldName) (v : Json) (rest : List (FieldName × Json)) :
    (",".intercalate (compactFields ((name, v) :: rest))).toList ++ ['\x7d'] =
      (textLiteral name.text).toList ++ ':' :: ((compact v).toList ++ fieldsText rest) := by
  induction rest generalizing name v with
  | nil => simp [compactFields, fieldsText]
  | cons field rest ih =>
      obtain ⟨name', w⟩ := field
      have more := ih name' w
      simp only [compactFields, String.toList_intercalate, List.map_cons] at more ⊢
      rw [List.intercalate_cons_cons, List.append_assoc, more]
      simp [fieldsText]

theorem toList_compact_array (v : Json) (rest : List Json) :
    (compact (.array (v :: rest))).toList = '[' :: ((compact v).toList ++ itemsText rest) := by
  rw [← toList_intercalate_items]
  simp [compact]

theorem toList_compact_object (name : FieldName) (v : Json) (rest : List (FieldName × Json)) :
    (compact (.object ((name, v) :: rest))).toList =
      '\x7b' :: ((textLiteral name.text).toList ++ ':' ::
        ((compact v).toList ++ fieldsText rest)) := by
  rw [← toList_intercalate_fields]
  simp [compact]

theorem delimited_itemsText (items : List Json) (rest : List Char) :
    Delimited (itemsText items ++ rest) := by
  cases items <;> (intro c first; cases first; rfl)

theorem delimited_fieldsText (fields : List (FieldName × Json)) (rest : List Char) :
    Delimited (fieldsText fields ++ rest) := by
  cases fields <;> (intro c first; cases first; rfl)

theorem scan_name (name : FieldName) (out : List Lexeme) (rest : List Char) :
    scan .between out ((textLiteral name.text).toList ++ ':' :: rest) =
      scan .between (.colon :: .text (name.text.getD "") (hasEscape (name.text.getD "")) :: out)
        rest := by
  rw [textLiteral, scan_literal]
  rfl

mutual

/-- The text of a value is cut into the lexemes of the value. -/
theorem scan_compact (j : Json) (writable : j.Writable) (out : List Lexeme) {rest : List Char}
    (delimited : Delimited rest) :
    scan .between out ((compact j).toList ++ rest) =
      scan .between ((lexemes j).reverse ++ out) rest := by
  cases j with
  | null => exact scan_bareWord ['n', 'u', 'l', 'l'] (by simp) rfl out delimited
  | bool b =>
      cases b with
      | true => exact scan_bareWord ['t', 'r', 'u', 'e'] (by simp) rfl out delimited
      | false => exact scan_bareWord ['f', 'a', 'l', 's', 'e'] (by simp) rfl out delimited
  | number lit =>
      obtain ⟨nonempty, numeric⟩ := Numeral.numeric_of_ofChars? (by simpa [Writable] using writable)
      have bare := List.all_eq_true.mpr fun c member => isBare_of_isNumeric (numeric c member)
      exact scan_bareWord _ nonempty bare out delimited
  | string s => exact scan_literal (s.getD "") out rest
  | array items =>
      cases items with
      | nil => rfl
      | cons v items =>
          simp only [Writable, WritableItems] at writable
          rw [toList_compact_array, List.cons_append, List.append_assoc,
            scan_mark (c := '[') fun _ => rfl,
            scan_compact v writable.1 _ (delimited_itemsText items rest),
            scan_itemsText items writable.2 _ rest]
          simp [lexemes]
  | object fields =>
      cases fields with
      | nil => rfl
      | cons field fields =>
          obtain ⟨name, v⟩ := field
          simp only [Writable, WritableFields] at writable
          rw [toList_compact_object, List.cons_append, List.append_assoc, List.cons_append,
            List.append_assoc, scan_mark (c := '\x7b') fun _ => rfl, scan_name,
            scan_compact v writable.2.1 _ (delimited_fieldsText fields rest),
            scan_fieldsText fields writable.2.2 _ rest]
          simp [lexemes]

theorem scan_itemsText (items : List Json) (writable : WritableItems items) (out : List Lexeme)
    (rest : List Char) :
    scan .between out (itemsText items ++ rest) =
      scan .between ((moreItems items).reverse ++ out) rest := by
  cases items with
  | nil => rfl
  | cons v items =>
      simp only [WritableItems] at writable
      rw [itemsText, List.cons_append, List.append_assoc, scan_mark (c := ',') fun _ => rfl,
        scan_compact v writable.1 _ (delimited_itemsText items rest),
        scan_itemsText items writable.2 _ rest]
      simp [moreItems]

theorem scan_fieldsText (fields : List (FieldName × Json)) (writable : WritableFields fields)
    (out : List Lexeme) (rest : List Char) :
    scan .between out (fieldsText fields ++ rest) =
      scan .between ((moreFields fields).reverse ++ out) rest := by
  cases fields with
  | nil => rfl
  | cons field fields =>
      obtain ⟨name, v⟩ := field
      simp only [WritableFields] at writable
      rw [fieldsText, List.cons_append, List.append_assoc, List.cons_append, List.append_assoc,
        scan_mark (c := ',') fun _ => rfl, scan_name,
        scan_compact v writable.2.1 _ (delimited_fieldsText fields rest),
        scan_fieldsText fields writable.2.2 _ rest]
      simp [moreFields]

end

/-! ### The machine of the reader -/

/-- Number literals are none of the three names. -/
theorem ofWord?_number {lit : String} (numeral : (Numeral.ofChars? lit.toList).isSome = true) :
    ofWord? lit.toList = some (.number lit) := by
  obtain ⟨_, numeric⟩ := Numeral.numeric_of_ofChars? numeral
  have name : ∀ word : List Char, (∃ c ∈ word, Numeral.isNumeric c = false) →
      lit.toList ≠ word := by
    rintro word ⟨c, member, other⟩ rfl
    rw [numeric c member] at other
    cases other
  obtain ⟨n, read⟩ := Option.isSome_iff_exists.mp numeral
  rw [ofWord?, if_neg (name _ ⟨'n', by simp, rfl⟩), if_neg (name _ ⟨'t', by simp, rfl⟩),
    if_neg (name _ ⟨'f', by simp, rfl⟩), read, Option.map_some, String.ofList_toList]

theorem run_cons {stack stack' : List Frame} {awaits awaits' : Awaits} {lexeme : Lexeme}
    (stepped : step stack awaits lexeme = some (stack', awaits')) (rest : List Lexeme) :
    run stack awaits (lexeme :: rest) = run stack' awaits' rest := by
  rw [run.eq_3, stepped]

theorem step_value (stack : List Frame) (lexeme : Lexeme) :
    step stack .value lexeme = step.start stack lexeme := by
  simp [step]

theorem step_firstItem (stack : List Frame) {lexeme : Lexeme} (goesOn : lexeme ≠ .closeBracket) :
    step stack .firstItem lexeme = step.start stack lexeme := by
  cases lexeme <;> first | exact absurd rfl goesOn | simp [step]

theorem run_value_cons {stack stack' : List Frame} {awaits : Awaits} {lexeme : Lexeme}
    (started : step.start stack lexeme = some (stack', awaits)) (rest : List Lexeme) :
    run stack .value (lexeme :: rest) = run stack' awaits rest :=
  run_cons ((step_value stack lexeme).trans started) rest

/-- Where a value or the end of an array may come, a value is read as it is elsewhere. -/
theorem run_firstItem (v : Json) (stack : List Frame) (rest : List Lexeme) :
    run stack .firstItem (lexemes v ++ rest) = run stack .value (lexemes v ++ rest) := by
  obtain ⟨first, more, begins, goesOn⟩ :
      ∃ first more, lexemes v = first :: more ∧ first ≠ .closeBracket := by
    cases v with
    | null | number | string => exact ⟨_, _, rfl, nofun⟩
    | bool b => cases b <;> exact ⟨_, _, rfl, nofun⟩
    | array items => cases items <;> exact ⟨_, _, rfl, nofun⟩
    | object fields => cases fields <;> exact ⟨_, _, rfl, nofun⟩
  rw [begins, List.cons_append, run.eq_3, run.eq_3, step_value, step_firstItem stack goesOn]

/-- The name of a field and the colon. -/
theorem run_name {stack : List Frame} {awaits : Awaits} (fields : List (FieldName × Json))
    {s : String}
    (named : step stack awaits (.text (some s) (hasEscape s)) =
      some (stack, .colon fields ⟨some s, hasEscape s⟩)) (rest : List Lexeme) :
    run stack awaits (.text (some s) (hasEscape s) :: .colon :: rest) =
      run (.object fields ⟨some s, hasEscape s⟩ :: stack) .value rest :=
  (run_cons named _).trans (run_cons (by simp [step]) rest)

mutual

/-- A value is put together from its lexemes. -/
theorem run_lexemes (j : Json) (writable : j.Writable) (stack : List Frame) (rest : List Lexeme) :
    run stack .value (lexemes j ++ rest) = run stack (.after j) rest := by
  cases j with
  | null => exact run_value_cons rfl rest
  | bool b => cases b <;> exact run_value_cons rfl rest
  | number lit =>
      have numeral : (Numeral.ofChars? lit.toList).isSome = true := by
        simpa [Writable] using writable
      refine run_value_cons ?_ rest
      simp [step.start, ofWord?_number numeral]
  | string s =>
      cases s with
      | none => simp [Writable] at writable
      | some s => exact run_value_cons rfl rest
  | array items =>
      cases items with
      | nil => exact (run_value_cons rfl _).trans (run_cons rfl rest)
      | cons v items =>
          simp only [Writable, WritableItems] at writable
          refine (run_value_cons rfl _).trans ?_
          show run (.array [] :: stack) .firstItem (lexemes v ++ moreItems items ++ rest) = _
          rw [List.append_assoc, run_firstItem, run_lexemes v writable.1,
            run_moreItems items writable.2]
          rfl
  | object fields =>
      cases fields with
      | nil => exact (run_value_cons rfl _).trans (run_cons (by simp [step]) rest)
      | cons field fields =>
          obtain ⟨name, v⟩ := field
          simp only [Writable, WritableFields] at writable
          obtain ⟨⟨s, rfl⟩, writable, others⟩ := writable
          refine (run_value_cons rfl _).trans ((run_name [] (by simp [step]) _).trans ?_)
          show run _ .value (lexemes v ++ moreFields fields ++ rest) = _
          rw [List.append_assoc, run_lexemes v writable, run_moreFields fields others]
          rfl

theorem run_moreItems (items : List Json) (writable : WritableItems items) (v : Json)
    (before : List Json) (stack : List Frame) (rest : List Lexeme) :
    run (.array before :: stack) (.after v) (moreItems items ++ rest) =
      run stack (.after (.array (before.reverse ++ v :: items))) rest := by
  cases items with
  | nil =>
      refine run_cons ?_ rest
      simp [step]
  | cons w items =>
      simp only [WritableItems] at writable
      show run (.array (v :: before) :: stack) .value (lexemes w ++ moreItems items ++ rest) = _
      rw [List.append_assoc, run_lexemes w writable.1, run_moreItems items writable.2]
      simp

theorem run_moreFields (fields : List (FieldName × Json)) (writable : WritableFields fields)
    (name : FieldName) (v : Json) (before : List (FieldName × Json)) (stack : List Frame)
    (rest : List Lexeme) :
    run (.object before name :: stack) (.after v) (moreFields fields ++ rest) =
      run stack (.after (.object (before.reverse ++ (name, v) :: fields))) rest := by
  cases fields with
  | nil =>
      refine run_cons ?_ rest
      simp [step]
  | cons field fields =>
      obtain ⟨name', w⟩ := field
      simp only [WritableFields] at writable
      obtain ⟨⟨s, rfl⟩, writable, others⟩ := writable
      refine (run_cons rfl _).trans ((run_name ((name, v) :: before) (by simp [step]) _).trans ?_)
      show run _ .value (lexemes w ++ moreFields fields ++ rest) = _
      rw [List.append_assoc, run_lexemes w writable, run_moreFields fields others]
      simp

end

/-- What can be written is read back from its text. -/
theorem parse?_compact {j : Json} (writable : j.Writable) : parse? (compact j) = some j := by
  have scanned := scan_compact j writable [] (show Delimited [] by simp [Delimited])
  have ran := run_lexemes j writable [] []
  simp only [List.append_nil] at scanned ran
  rw [parse?, ofString?, scanned]
  simp only [scan, List.reverse_reverse, Option.bind_some]
  rw [ran]
  rfl

end ScriptHeap.Json
