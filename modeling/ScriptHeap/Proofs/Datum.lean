import Mathlib.Data.List.Forall2
import ScriptHeap.Datum
import ScriptHeap.Decimal.Shortest
import ScriptHeap.Json.Numeral

/-!
# What is asked of a format

Two things are asked of a format. It writes data exactly if the keys of all maps in it are texts or
words (`Format.KeyRule`). And data that fits a schema is read back from its text by that schema,
structures, cases and all, with each number as the format reads that number alone
(`Format.RoundTrip`): a format may write fewer digits than a number has.
-/

namespace ScriptHeap

/-! ### Lists of parts -/

section Lists

variable {α β γ : Type}

theorem of_mapM_cons {f : α → Option β} {a : α} {rest : List α} {made : List β}
    (done : (a :: rest).mapM f = some made) :
    ∃ b others, f a = some b ∧ rest.mapM f = some others ∧ made = b :: others := by
  rw [List.mapM_cons] at done
  cases first : f a <;> cases others : rest.mapM f <;> simp_all

/-- What is made of the items one by one, and then again, is made of them at once. -/
theorem mapM_of_mapM {f : α → Option β} {g : β → Option γ} {h : α → Option γ} {items : List α}
    {made : List β} (done : items.mapM f = some made)
    (each : ∀ a ∈ items, ∀ b, f a = some b → g b = h a) : made.mapM g = items.mapM h := by
  induction items generalizing made with
  | nil =>
      cases done
      rfl
  | cons a rest ih =>
      obtain ⟨b, others, first, later, rfl⟩ := of_mapM_cons done
      obtain ⟨here, there⟩ := List.forall_mem_cons.mp each
      rw [List.mapM_cons, List.mapM_cons, here b first, ih later there]

/-- What all of the items are made into has a property that each of them gives. -/
theorem forall_of_mapM {f : α → Option β} {P : β → Prop} {items : List α} {made : List β}
    (done : items.mapM f = some made) (each : ∀ a ∈ items, ∀ b, f a = some b → P b) :
    ∀ b ∈ made, P b := by
  induction items generalizing made with
  | nil =>
      cases done
      simp
  | cons a rest ih =>
      obtain ⟨b, others, first, later, rfl⟩ := of_mapM_cons done
      obtain ⟨here, there⟩ := List.forall_mem_cons.mp each
      exact List.forall_mem_cons.mpr ⟨here b first, ih later there⟩

/-- What is carried along with the items stays as it is. -/
theorem map_of_mapM {f : α → Option β} {g : α → γ} {h : β → γ} {items : List α} {made : List β}
    (done : items.mapM f = some made) (each : ∀ a b, f a = some b → h b = g a) :
    made.map h = items.map g := by
  induction items generalizing made with
  | nil =>
      cases done
      rfl
  | cons a rest ih =>
      obtain ⟨b, others, first, later, rfl⟩ := of_mapM_cons done
      rw [List.map_cons, List.map_cons, each a b first, ih later]

theorem mapM_eq_some_map {f : α → Option β} {g : α → β} {items : List α}
    (each : ∀ a ∈ items, f a = some (g a)) : items.mapM f = some (items.map g) := by
  induction items with
  | nil => rfl
  | cons a items ih =>
      obtain ⟨first, others⟩ := List.forall_mem_cons.mp each
      rw [List.mapM_cons, first, ih others]
      rfl

/-- Items are kept by a step that keeps each of them, and by no other. -/
theorem mapM_eq_some_self_iff {f : α → Option α} {items : List α} :
    items.mapM f = some items ↔ ∀ a ∈ items, f a = some a := by
  induction items with
  | nil => simp
  | cons a items ih =>
      rw [List.mapM_cons, List.forall_mem_cons, ← ih]
      cases f a <;> cases items.mapM f <;> simp [and_comm]

theorem mapM_bind_mapM (f : α → Option β) (g : β → Option γ) (items : List α) :
    (items.mapM f).bind (List.mapM g) = items.mapM fun a => (f a).bind g := by
  induction items with
  | nil => rfl
  | cons a rest ih =>
      rw [List.mapM_cons, List.mapM_cons, ← ih]
      cases f a with
      | none => rfl
      | some b =>
          cases rest.mapM f with
          | none =>
              rw [Option.bind_some]
              cases g b <;> rfl
          | some made => exact List.mapM_cons

end Lists

/-- The number is neither infinite nor no number. -/
def IsFinite (x : Float) : Prop :=
  (Decimal.Binary.ofBits? x.toBits).isSome = true

namespace Datum

/-- Whether data can be the key of a map: a text or a word. -/
def isKey : Datum → Bool
  | .text _ => true
  | .word _ => true
  | _ => false

mutual

/-- Whether the keys of all maps are texts or words. -/
def keyed : Datum → Bool
  | .present d => keyed d
  | .list items => itemsKeyed items
  | .tuple items => itemsKeyed items
  | .map entries => entriesKeyed entries
  | .record fields => fieldsKeyed fields
  | .tagged _ payload => keyed payload
  | .bool _ | .word _ | .number _ | .text _ | .absent | .case _ => true

def itemsKeyed : List Datum → Bool
  | [] => true
  | d :: rest => keyed d && itemsKeyed rest

def entriesKeyed : List (Datum × Datum) → Bool
  | [] => true
  | (key, d) :: rest => key.isKey && keyed d && entriesKeyed rest

def fieldsKeyed : List (String × Datum) → Bool
  | [] => true
  | (_, d) :: rest => keyed d && fieldsKeyed rest

end

mutual

/-- The data with another number in the place of each number, unless there is none for one of them.
    Keys of maps are no numbers and stay. -/
def mapNumbers? (f : Float → Option Float) : Datum → Option Datum
  | .number x => (f x).map .number
  | .present d => (mapNumbers? f d).map .present
  | .list items => (mapItems? f items).map .list
  | .tuple items => (mapItems? f items).map .tuple
  | .map entries => (mapEntries? f entries).map .map
  | .record fields => (mapFields? f fields).map .record
  | .tagged name payload => (mapNumbers? f payload).map (.tagged name)
  | .bool b => some (.bool b)
  | .word n => some (.word n)
  | .text s => some (.text s)
  | .absent => some .absent
  | .case name => some (.case name)

def mapItems? (f : Float → Option Float) : List Datum → Option (List Datum)
  | [] => some []
  | d :: rest => do return (← mapNumbers? f d) :: (← mapItems? f rest)

def mapEntries? (f : Float → Option Float) : List (Datum × Datum) → Option (List (Datum × Datum))
  | [] => some []
  | (key, d) :: rest => do return (key, ← mapNumbers? f d) :: (← mapEntries? f rest)

def mapFields? (f : Float → Option Float) : List (String × Datum) → Option (List (String × Datum))
  | [] => some []
  | (name, d) :: rest => do return (name, ← mapNumbers? f d) :: (← mapFields? f rest)

end

end Datum

/-- Data that fits a schema. Words have 64 bits and numbers are finite; what may be missing
    is not itself something that may be missing; the fields of a structure have different names. -/
inductive Fits : Schema → Datum → Prop where
  | bool (b : Bool) : Fits .bool (.bool b)
  | word {n : Nat} (small : n < Json.Numeral.wordLimit) : Fits .word (.word n)
  | number {x : Float} (finite : IsFinite x) : Fits .number (.number x)
  | text (s : String) : Fits .text (.text s)
  | absent (s : Schema) : Fits (.option s) .absent
  | present {s : Schema} {d : Datum} (plain : s.isOption = false) (fits : Fits s d) :
      Fits (.option s) (.present d)
  | list {s : Schema} {items : List Datum} (each : ∀ d ∈ items, Fits s d) :
      Fits (.list s) (.list items)
  | tuple (parts : List (Schema × Datum)) (each : ∀ part ∈ parts, Fits part.1 part.2) :
      Fits (.tuple (parts.map Prod.fst)) (.tuple (parts.map Prod.snd))
  | map {key value : Schema} {entries : List (Datum × Datum)}
      (keys : ∀ entry ∈ entries, Fits key entry.1)
      (values : ∀ entry ∈ entries, Fits value entry.2) : Fits (.map key value) (.map entries)
  | record (parts : List (String × Schema × Datum)) (distinct : (parts.map Prod.fst).Nodup)
      (each : ∀ part ∈ parts, Fits part.2.1 part.2.2) :
      Fits (.record (parts.map fun part => (part.1, part.2.1)))
        (.record (parts.map fun part => (part.1, part.2.2)))
  | case {bare : List String} {tagged : List (String × Schema)} {name : String}
      (member : name ∈ bare) : Fits (.cases bare tagged) (.case name)
  | tagged {bare : List String} {tagged : List (String × Schema)} {name : String} {s : Schema}
      {d : Datum} (other : name ∉ bare) (found : tagged.lookup name = some s) (fits : Fits s d) :
      Fits (.cases bare tagged) (.tagged name d)

namespace Fits

/-- Fields fit one by one. -/
theorem fields {schemas : List (String × Schema)} (items : List Datum)
    (distinct : (schemas.map Prod.fst).Nodup)
    (each : List.Forall₂ (fun field d => Fits field.2 d) schemas items) :
    Fits (.record schemas) (.record ((schemas.map Prod.fst).zip items)) := by
  have parts : ∃ parts : List (String × Schema × Datum),
      schemas = parts.map (fun part => (part.1, part.2.1)) ∧
      (schemas.map Prod.fst).zip items = parts.map (fun part => (part.1, part.2.2)) ∧
      ∀ part ∈ parts, Fits part.2.1 part.2.2 := by
    clear distinct
    induction each with
    | nil => exact ⟨[], rfl, rfl, by simp⟩
    | @cons field d schemas items first _ ih =>
        obtain ⟨parts, rfl, named, others⟩ := ih
        exact ⟨(field.1, field.2, d) :: parts, rfl, congrArg ((field.1, d) :: ·) named,
          List.forall_mem_cons.mpr ⟨first, others⟩⟩
  obtain ⟨parts, rfl, named, each⟩ := parts
  rw [named]
  rw [List.map_map] at distinct
  exact .record parts distinct each

theorem ofOption {α : Type} {s : Schema} {write : α → Datum} {a : Option α}
    (plain : s.isOption = false) (each : ∀ b ∈ a, Fits s (write b)) :
    Fits (.option s) (.ofOption write a) := by
  cases a with
  | none => exact .absent s
  | some a => exact .present plain (each a rfl)

theorem ofList {α : Type} {s : Schema} {write : α → Datum} {items : List α}
    (each : ∀ a ∈ items, Fits s (write a)) : Fits (.list s) (.ofList write items) :=
  .list (List.forall_mem_map.mpr each)

theorem ofEntries {α β : Type} {key value : Schema} {writeKey : α → Datum} {write : β → Datum}
    {entries : List (α × β)} (keys : ∀ entry ∈ entries, Fits key (writeKey entry.1))
    (values : ∀ entry ∈ entries, Fits value (write entry.2)) :
    Fits (.map key value) (.ofEntries writeKey write entries) :=
  .map (List.forall_mem_map.mpr keys) (List.forall_mem_map.mpr values)

end Fits

namespace Format

/-- Data can be written exactly if the keys of all maps in it are texts or words. -/
def KeyRule (format : Format) : Prop :=
  ∀ d, (format.write? d).isSome = d.keyed

/-- What a format reads for a number from the text of the number. -/
def again? (format : Format) (x : Float) : Option Float :=
  ((format.write? (.number x)).bind (format.read? .number)).bind Datum.number?

/-- Data that fits a schema is read back from its text, with each number as the format reads it. -/
def RoundTrip (format : Format) : Prop :=
  ∀ schema d text, Fits schema d → format.write? d = some text →
    format.read? schema text = d.mapNumbers? format.again?

end Format

namespace Datum

/-! ### Forms, part by part -/

theorem itemsKeyed_eq (items : List Datum) : itemsKeyed items = items.all keyed := by
  induction items with
  | nil => rfl
  | cons d rest ih => rw [itemsKeyed, ih, List.all_cons]

theorem entriesKeyed_eq (entries : List (Datum × Datum)) :
    entriesKeyed entries = entries.all fun entry => entry.1.isKey && entry.2.keyed := by
  induction entries with
  | nil => rfl
  | cons entry rest ih => rw [entriesKeyed, ih, List.all_cons]

theorem fieldsKeyed_eq (fields : List (String × Datum)) :
    fieldsKeyed fields = fields.all fun field => field.2.keyed := by
  induction fields with
  | nil => rfl
  | cons field rest ih => rw [fieldsKeyed, ih, List.all_cons]

theorem mapItems?_eq (f : Float → Option Float) (items : List Datum) :
    mapItems? f items = items.mapM (mapNumbers? f) := by
  induction items with
  | nil => rfl
  | cons d rest ih => rw [mapItems?, ih, List.mapM_cons]

theorem mapEntries?_eq (f : Float → Option Float) (entries : List (Datum × Datum)) :
    mapEntries? f entries = entries.mapM fun entry => (mapNumbers? f entry.2).map (entry.1, ·) := by
  induction entries with
  | nil => rfl
  | cons entry rest ih =>
      rw [mapEntries?, ih, List.mapM_cons]
      cases mapNumbers? f entry.2 <;> rfl

theorem mapFields?_eq (f : Float → Option Float) (fields : List (String × Datum)) :
    mapFields? f fields = fields.mapM fun field => (mapNumbers? f field.2).map (field.1, ·) := by
  induction fields with
  | nil => rfl
  | cons field rest ih =>
      rw [mapFields?, ih, List.mapM_cons]
      cases mapNumbers? f field.2 <;> rfl

end Datum

end ScriptHeap
