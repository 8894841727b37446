import ScriptHeap.Json.Datum
import ScriptHeap.Proofs.Datum
import ScriptHeap.Proofs.Json.Text

/-!
# JSON as a format

JSON writes data exactly if the keys of all maps in it are texts or words (`format_keyRule`), and it
reads data back part by part: the fields of a structure under their names, a case by its name, the
entries of a map under the names of their keys, and each number as its literal is read
(`format_roundTrip`).
-/

namespace ScriptHeap

namespace Datum

theorem itemsToJson?_eq (items : List Datum) : itemsToJson? items = items.mapM toJson? := by
  induction items with
  | nil => rfl
  | cons d rest ih => rw [itemsToJson?, ih, List.mapM_cons]

theorem fieldsToJson?_eq (fields : List (String × Datum)) :
    fieldsToJson? fields = fields.mapM fun field => field.2.toJson?.map (field.1, ·) := by
  induction fields with
  | nil => rfl
  | cons field rest ih =>
      rw [fieldsToJson?, ih, List.mapM_cons]
      cases field.2.toJson? <;> rfl

theorem entriesToJson?_eq (entries : List (Datum × Datum)) :
    entriesToJson? entries = entries.mapM fun entry => do
      return (← entry.1.keyName?, ← entry.2.toJson?) := by
  induction entries with
  | nil => rfl
  | cons entry rest ih =>
      rw [entriesToJson?, ih, List.mapM_cons]
      cases entry.1.keyName? <;> cases entry.2.toJson? <;> rfl

theorem of_entry {entry : Datum × Datum} {field : String × Json}
    (done : (do return (← entry.1.keyName?, ← entry.2.toJson?)) = some field) :
    ∃ name, entry.1.keyName? = some name ∧ ∃ j, entry.2.toJson? = some j ∧ (name, j) = field := by
  cases name : entry.1.keyName? <;> cases j : entry.2.toJson? <;> simp_all

/-! ### What can be written -/

theorem isSome_keyName? (d : Datum) : d.keyName?.isSome = d.isKey := by
  cases d <;> rfl

mutual

theorem isSome_toJson? (d : Datum) : d.toJson?.isSome = d.keyed := by
  cases d with
  | bool | word | number | text | absent | case => rfl
  | present d => exact isSome_toJson? d
  | list items | tuple items =>
      rw [toJson?, Option.isSome_map, keyed, isSome_itemsToJson? items]
  | map entries => rw [toJson?, Option.isSome_map, keyed, isSome_entriesToJson? entries]
  | record fields => rw [toJson?, Option.isSome_map, keyed, isSome_fieldsToJson? fields]
  | tagged name payload => rw [toJson?, Option.isSome_map, keyed, isSome_toJson? payload]

theorem isSome_itemsToJson? (items : List Datum) :
    (itemsToJson? items).isSome = itemsKeyed items := by
  cases items with
  | nil => rfl
  | cons d rest =>
      rw [itemsKeyed, ← isSome_toJson? d, ← isSome_itemsToJson? rest, itemsToJson?]
      cases d.toJson? <;> cases itemsToJson? rest <;> rfl

theorem isSome_entriesToJson? (entries : List (Datum × Datum)) :
    (entriesToJson? entries).isSome = entriesKeyed entries := by
  cases entries with
  | nil => rfl
  | cons entry rest =>
      obtain ⟨key, d⟩ := entry
      rw [entriesKeyed, ← isSome_keyName? key, ← isSome_toJson? d, ← isSome_entriesToJson? rest,
        entriesToJson?]
      cases key.keyName? <;> cases d.toJson? <;> cases entriesToJson? rest <;> rfl

theorem isSome_fieldsToJson? (fields : List (String × Datum)) :
    (fieldsToJson? fields).isSome = fieldsKeyed fields := by
  cases fields with
  | nil => rfl
  | cons field rest =>
      obtain ⟨name, d⟩ := field
      rw [fieldsKeyed, ← isSome_toJson? d, ← isSome_fieldsToJson? rest, fieldsToJson?]
      cases d.toJson? <;> cases fieldsToJson? rest <;> rfl

end

end Datum

namespace Json

open Datum

/-- JSON writes data exactly if the keys of all maps in it are texts or words. -/
theorem format_keyRule : format.KeyRule := by
  intro d
  exact Option.isSome_map.trans d.isSome_toJson?

/-! ### The text of data -/

theorem writable_text (s : String) : (text s).Writable := by
  simp [text, Writable]

theorem writable_nat (n : Nat) : (nat n).Writable := by
  simp [nat, Writable, Numeral.ofChars?_toDigits]

theorem writable_array {items : List Json} (each : ∀ v ∈ items, v.Writable) :
    (array items).Writable := by
  simp only [Writable]
  induction items with
  | nil => simp [WritableItems]
  | cons v items ih =>
      obtain ⟨first, others⟩ := List.forall_mem_cons.mp each
      exact ⟨first, ih others⟩

theorem writable_named {fields : List (String × Json)} (each : ∀ field ∈ fields, field.2.Writable) :
    (named fields).Writable := by
  simp only [named, Writable]
  induction fields with
  | nil => simp [WritableFields]
  | cons field fields ih =>
      obtain ⟨first, others⟩ := List.forall_mem_cons.mp each
      exact ⟨⟨field.1, rfl⟩, first, ih others⟩

/-- The text of data that fits a schema can be read. -/
theorem writable_of_toJson? {schema : Schema} {d : Datum} {j : Json} (fits : Fits schema d)
    (written : d.toJson? = some j) : j.Writable := by
  induction fits generalizing j with
  | bool | absent =>
      cases written
      simp [Writable]
  | word =>
      cases written
      exact writable_nat _
  | text | case =>
      cases written
      exact writable_text _
  | number finite =>
      cases written
      simpa [Writable] using Numeral.isSome_data_text finite
  | present _ _ ih => exact ih written
  | list _ ih =>
      rw [toJson?, itemsToJson?_eq] at written
      obtain ⟨js, listed, rfl⟩ := Option.map_eq_some_iff.mp written
      exact writable_array (forall_of_mapM listed fun d member j done => ih d member done)
  | tuple parts _ ih =>
      rw [toJson?, itemsToJson?_eq, List.mapM_map] at written
      obtain ⟨js, listed, rfl⟩ := Option.map_eq_some_iff.mp written
      exact writable_array (forall_of_mapM listed fun part member j done => ih part member done)
  | map _ _ _ ih =>
      rw [toJson?, entriesToJson?_eq] at written
      obtain ⟨js, listed, rfl⟩ := Option.map_eq_some_iff.mp written
      refine writable_named (forall_of_mapM listed fun entry member field done => ?_)
      obtain ⟨name, _, value, made, rfl⟩ := of_entry done
      exact ih entry member made
  | record parts _ _ ih =>
      rw [toJson?, fieldsToJson?_eq, List.mapM_map] at written
      obtain ⟨js, listed, rfl⟩ := Option.map_eq_some_iff.mp written
      refine writable_named (forall_of_mapM listed fun part member field done => ?_)
      obtain ⟨value, made, rfl⟩ := Option.map_eq_some_iff.mp done
      exact ih part member made
  | tagged _ _ _ ih =>
      obtain ⟨payload, made, rfl⟩ := Option.map_eq_some_iff.mp written
      exact writable_named (by simpa using ih made)

/-! ### Reading data back -/

theorem word?_nat {n : Nat} (small : n < Numeral.wordLimit) : word? (.nat n) = some n := by
  simpa [word?, numeral?, nat] using Numeral.toWord?_toDigits small

/-- A finite number is read again from its literal. -/
theorem again?_format {x : Float} (finite : IsFinite x) :
    format.again? x = float? (.number (Decimal.Layout.data.text x)) := by
  have writable : (Json.number (Decimal.Layout.data.text x)).Writable := by
    simpa [Writable] using Numeral.isSome_data_text finite
  have parsed := parse?_compact writable
  simp only [Format.again?, format, toJson?, Option.map_some, Option.bind_some, parsed, datum?]
  cases float? (.number (Decimal.Layout.data.text x)) <;> rfl

theorem escapeChar_of_isDigit {c : Char} (digit : c.isDigit = true) : escapeChar c = [c] := by
  have visible : ¬ c < ' ' := by
    simp only [Char.isDigit, Bool.and_eq_true, decide_eq_true_eq] at digit
    exact Char.not_lt.mpr (Nat.le_trans (by decide) digit.1)
  unfold escapeChar
  split <;> first | cases digit | exact if_neg visible

theorem hasEscape_toString (n : Nat) : hasEscape (toString n) = false := by
  rw [hasEscape, Nat.toString_eq_ofList_toDigits, String.toList_ofList, List.any_eq_false]
  intro c member
  have digit := Nat.isDigit_of_mem_toDigits (by decide) (by decide) member
  simp [escapes, escapeChar_of_isDigit digit]

/-- The key of a map is read back from its name. -/
theorem key?_of_keyName? {schema : Schema} {d : Datum} {name : String} (fits : Fits schema d)
    (named : d.keyName? = some name) : key? schema ⟨some name, hasEscape name⟩ = some d := by
  cases fits with
  | text s =>
      cases named
      rfl
  | @word n small =>
      cases named
      have digits : (Numeral.ofChars? (Nat.toDigits 10 n)).bind Numeral.toWord? = some n :=
        Numeral.toWord?_toDigits small
      obtain ⟨numeral, cut, value⟩ := Option.bind_eq_some_iff.mp digits
      have plain : FieldName.plain? ⟨some (toString n), hasEscape (toString n)⟩ =
          some (toString n) := by rw [FieldName.plain?, hasEscape_toString]; rfl
      have again : (toString n).toList = Nat.toDigits 10 n := by
        rw [Nat.toString_eq_ofList_toDigits, String.toList_ofList]
      simp only [key?, plain, Option.bind_some, again, cut, value, bind]
      rfl
  | _ => cases named

/-- Only something that may be missing is written as `null`. -/
theorem not_isNull {schema : Schema} {d : Datum} {j : Json} (fits : Fits schema d)
    (plain : schema.isOption = false) (written : d.toJson? = some j) : j.isNull = false := by
  cases fits with
  | bool | word | number | text | case =>
      cases written
      rfl
  | list | tuple | map | record | tagged =>
      obtain ⟨_, _, rfl⟩ := Option.map_eq_some_iff.mp written
      rfl
  | absent | present => cases plain

theorem field?_of_mem {fields : List (String × Json)} (distinct : (fields.map Prod.fst).Nodup)
    {name : String} {v : Json} (member : (name, v) ∈ fields) :
    field? (fields.map fun field => (⟨some field.1, hasEscape field.1⟩, field.2)) name =
      some (some v) := by
  have one : (fields.map fun field =>
      ((⟨some field.1, hasEscape field.1⟩ : FieldName), field.2)).filter
        (fun field => field.1.text == some name) = [(⟨some name, hasEscape name⟩, v)] := by
    induction fields with
    | nil => cases member
    | cons field fields ih =>
        obtain ⟨absent, distinct⟩ := List.nodup_cons.mp distinct
        rcases List.mem_cons.mp member with rfl | later
        · have none : (fields.map fun field =>
              ((⟨some field.1, hasEscape field.1⟩ : FieldName), field.2)).filter
                (fun field => field.1.text == some name) = [] := by
            rw [List.filter_eq_nil_iff]
            intro other found
            obtain ⟨field, inside, rfl⟩ := List.mem_map.mp found
            simp only [Option.some_beq_some, beq_iff_eq]
            intro same
            exact absent (List.mem_map.mpr ⟨field, inside, same⟩)
          simp [none]
        · have other : field.1 ≠ name := fun same =>
            absent (List.mem_map.mpr ⟨(name, v), later, same.symm⟩)
          simpa [other] using ih distinct later
  rw [field?, one]

/-- The fields of an object are found under their names. -/
theorem fields?_named {fields : List (String × Json)} (distinct : (fields.map Prod.fst).Nodup) :
    fields? (fields.map Prod.fst) (named fields) = some (fields.map fun field => some field.2) := by
  have found : (fields.map Prod.fst).mapM
      (field? (fields.map fun field => (⟨some field.1, hasEscape field.1⟩, field.2))) =
        some (fields.map fun field => some field.2) := by
    rw [List.mapM_map]
    exact mapM_eq_some_map fun field member => field?_of_mem distinct member
  simp [fields?, named, found]

theorem payload?_of_lookup {tagged : List (String × Schema)} {name : String} {s : Schema}
    (found : tagged.lookup name = some s) (j : Json) : payload? tagged name j = datum? s j := by
  induction tagged with
  | nil => cases found
  | cons entry rest ih =>
      obtain ⟨other, t⟩ := entry
      rw [payload?]
      by_cases same : other = name
      · subst same
        rw [if_pos rfl]
        simp_all
      · rw [if_neg same]
        apply ih
        rwa [List.lookup_cons, beq_false_of_ne (Ne.symm same)] at found

section Reading

variable {f : Float → Option Float}

theorem components?_of_mapM {parts : List (Schema × Datum)} {js : List Json}
    (listed : (parts.mapM fun part => part.2.toJson?) = some js)
    (each : ∀ part ∈ parts, ∀ j, part.2.toJson? = some j →
      datum? part.1 j = part.2.mapNumbers? f) :
    components? (parts.map Prod.fst) js = parts.mapM fun part => part.2.mapNumbers? f := by
  induction parts generalizing js with
  | nil =>
      cases listed
      rfl
  | cons part rest ih =>
      obtain ⟨j, others, first, later, rfl⟩ := of_mapM_cons listed
      obtain ⟨here, there⟩ := List.forall_mem_cons.mp each
      rw [List.map_cons, components?, here j first, ih later there, List.mapM_cons]

theorem fieldData?_of_mapM {parts : List (String × Schema × Datum)} {made : List (String × Json)}
    (listed : (parts.mapM fun part => part.2.2.toJson?.map (part.1, ·)) = some made)
    (each : ∀ part ∈ parts, ∀ j, part.2.2.toJson? = some j →
      datum? part.2.1 j = part.2.2.mapNumbers? f) :
    fieldData? (parts.map fun part => (part.1, part.2.1)) (made.map fun field => some field.2) =
      parts.mapM fun part => (part.2.2.mapNumbers? f).map (part.1, ·) := by
  induction parts generalizing made with
  | nil =>
      cases listed
      rfl
  | cons part rest ih =>
      obtain ⟨field, others, first, later, rfl⟩ := of_mapM_cons listed
      obtain ⟨j, written, rfl⟩ := Option.map_eq_some_iff.mp first
      obtain ⟨here, there⟩ := List.forall_mem_cons.mp each
      rw [List.map_cons, List.map_cons, fieldData?, here j written, ih later there, List.mapM_cons]
      cases part.2.2.mapNumbers? f <;> rfl

end Reading

/-- Data that fits a schema is read back from its JSON value, with each number read again. -/
theorem datum?_of_toJson? {schema : Schema} {d : Datum} {j : Json} (fits : Fits schema d)
    (written : d.toJson? = some j) : datum? schema j = d.mapNumbers? format.again? := by
  induction fits generalizing j with
  | bool | text | absent =>
      cases written
      rfl
  | word small =>
      cases written
      rw [datum?, word?_nat small]
      rfl
  | number finite =>
      cases written
      rw [datum?, mapNumbers?, again?_format finite]
  | present plain fits ih =>
      rw [datum?, if_neg (by simp [not_isNull fits plain written]), ih written]
      rfl
  | list _ ih =>
      rw [toJson?, itemsToJson?_eq] at written
      obtain ⟨js, listed, rfl⟩ := Option.map_eq_some_iff.mp written
      have read := mapM_of_mapM listed fun d member j done => ih d member done
      rw [mapNumbers?, mapItems?_eq, ← read, datum?]
      rfl
  | tuple parts _ ih =>
      rw [toJson?, itemsToJson?_eq, List.mapM_map] at written
      obtain ⟨js, listed, rfl⟩ := Option.map_eq_some_iff.mp written
      have read := components?_of_mapM listed fun part member j done => ih part member done
      rw [mapNumbers?, mapItems?_eq, List.mapM_map, datum?]
      exact congrArg _ read
  | map keys _ _ ih =>
      rw [toJson?, entriesToJson?_eq] at written
      obtain ⟨made, listed, rfl⟩ := Option.map_eq_some_iff.mp written
      rw [mapNumbers?, mapEntries?_eq, datum?, named, object?, Option.bind_some, List.mapM_map]
      refine congrArg _ (mapM_of_mapM listed fun entry member field done => ?_)
      obtain ⟨name, named, value, made, rfl⟩ := of_entry done
      rw [Function.comp_apply, key?_of_keyName? (keys entry member) named, ih entry member made]
      cases entry.2.mapNumbers? format.again? <;> rfl
  | record parts distinct _ ih =>
      rw [toJson?, fieldsToJson?_eq, List.mapM_map] at written
      obtain ⟨made, listed, rfl⟩ := Option.map_eq_some_iff.mp written
      have read := fieldData?_of_mapM listed fun part member j done => ih part member done
      have names : made.map Prod.fst = parts.map Prod.fst := by
        refine map_of_mapM listed fun part field done => ?_
        obtain ⟨_, _, rfl⟩ := Option.map_eq_some_iff.mp done
        rfl
      rw [mapNumbers?, mapFields?_eq, List.mapM_map, datum?, List.map_map]
      have found := fields?_named (names ▸ distinct)
      rw [names] at found
      rw [show (Prod.fst ∘ fun part : String × Schema × Datum => (part.1, part.2.1)) = Prod.fst
        from rfl, found]
      exact congrArg _ read
  | @case bare _ name member =>
      cases written
      have known : bare.contains name = true := List.contains_iff_mem.mpr member
      rw [datum?]
      simp only [text, variant?, bind, Option.bind_some, known]
      rfl
  | @tagged bare _ name _ _ other found fits ih =>
      obtain ⟨payload, made, rfl⟩ := Option.map_eq_some_iff.mp written
      have unknown : bare.contains name = false := by simpa using other
      rw [datum?, mapNumbers?, ← ih made, ← payload?_of_lookup found]
      simp only [named, List.map_cons, List.map_nil, variant?, bind, Option.bind_some, unknown]
      cases payload? _ name payload <;> rfl

/-- JSON reads data that fits a schema back from its text. -/
theorem format_roundTrip : format.RoundTrip := by
  intro schema d text fits written
  obtain ⟨j, made, rfl⟩ := Option.map_eq_some_iff.mp written
  have parsed := parse?_compact (writable_of_toJson? fits made)
  exact (congrArg (Option.bind · (datum? schema)) parsed).trans (datum?_of_toJson? fits made)

end Json

end ScriptHeap
