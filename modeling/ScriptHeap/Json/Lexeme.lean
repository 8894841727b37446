/-!
# The lexemes of JSON text

Text is cut into lexemes by one pass over its characters. A bare word is the longest run of
characters that are neither blank, nor punctuation, nor a quote; whether it is a literal name or a
number is decided afterwards.
-/

namespace ScriptHeap.Json

/-- A lexeme of JSON text. -/
inductive Lexeme where
  | openBrace
  | closeBrace
  | openBracket
  | closeBracket
  | colon
  | comma
  /-- A string literal, without text if an escape in it names half of a surrogate pair, and whether
      it has escapes at all. -/
  | text (s : Option String) (escaped : Bool)
  | word (chars : List Char)
deriving DecidableEq, Repr

namespace Lexeme

/-- The punctuation marks. -/
def punctuation? : Char → Option Lexeme
  | '\x7b' => some .openBrace
  | '\x7d' => some .closeBrace
  | '[' => some .openBracket
  | ']' => some .closeBracket
  | ':' => some .colon
  | ',' => some .comma
  | _ => none

/-- Blanks between lexemes. -/
def isBlank (c : Char) : Bool :=
  c == ' ' || c == '\n' || c == '\t' || c == '\r'

/-- The value of a hexadecimal digit, in either case. -/
def hexValue? (c : Char) : Option Nat :=
  if '0' ≤ c ∧ c ≤ '9' then some (c.toNat - '0'.toNat)
  else if 'a' ≤ c ∧ c ≤ 'f' then some (c.toNat - 'a'.toNat + 10)
  else if 'A' ≤ c ∧ c ≤ 'F' then some (c.toNat - 'A'.toNat + 10)
  else none

/-- The value of four hexadecimal digits. -/
def hex4? (a b c d : Char) : Option Nat := do
  return (((← hexValue? a) * 16 + (← hexValue? b)) * 16 + (← hexValue? c)) * 16 + (← hexValue? d)

/-- The characters that a one-letter escape stands for. -/
def shortEscape? : Char → Option Char
  | '"' => some '"'
  | '\\' => some '\\'
  | '/' => some '/'
  | 'b' => some '\x08'
  | 'f' => some '\x0c'
  | 'n' => some '\n'
  | 'r' => some '\r'
  | 't' => some '\t'
  | _ => none

/-- A string literal in the making: its characters, last first, the first half of a surrogate pair
    that still waits for the second, and whether there was an escape. The characters are gone once a
    half stays alone. -/
structure Draft where
  chars : Option (List Char) := some []
  half : Option Nat := none
  escaped : Bool := false
deriving DecidableEq, Repr

namespace Draft

/-- Add a character. A waiting half stays alone. -/
def push (draft : Draft) (c : Char) : Draft :=
  match draft.half with
  | none => { draft with chars := draft.chars.map (c :: ·) }
  | some _ => { draft with chars := none, half := none }

/-- Note that an escape comes next. -/
def escape (draft : Draft) : Draft :=
  { draft with escaped := true }

/-- Add a code unit written as a four-digit escape. -/
def pushUnit (draft : Draft) (u : Nat) : Draft :=
  match draft.half with
  | some high =>
    if 0xDC00 ≤ u ∧ u ≤ 0xDFFF then
      let c := Char.ofNat (0x10000 + (high - 0xD800) * 0x400 + (u - 0xDC00))
      { draft with chars := draft.chars.map (c :: ·), half := none }
    else { draft with chars := none, half := none }
  | none =>
    if 0xD800 ≤ u ∧ u ≤ 0xDBFF then { draft with half := some u }
    else if 0xDC00 ≤ u ∧ u ≤ 0xDFFF then { draft with chars := none }
    else draft.push (Char.ofNat u)

/-- The finished literal. -/
def finish (draft : Draft) : Lexeme :=
  match draft.half with
  | none => .text (draft.chars.map fun chars => String.ofList chars.reverse) draft.escaped
  | some _ => .text none draft.escaped

end Draft

/-- Where the pass stands: between lexemes, inside a bare word, or inside a string literal. -/
inductive Mode where
  | between
  | word (chars : List Char)
  | text (draft : Draft)

/-- What one character does outside a string literal. -/
def stepBetween (c : Char) (out : List Lexeme) : Mode × List Lexeme :=
  if isBlank c then (.between, out)
  else if c = '"' then (.text {}, out)
  else
    match punctuation? c with
    | some mark => (.between, mark :: out)
    | none => (.word [c], out)

/-- One pass over the characters, with the lexemes found so far, last first. There is none when a
    string literal does not end, holds a control character, or has an escape that does not exist. -/
def scan : Mode → List Lexeme → List Char → Option (List Lexeme)
  | .between, out, [] => some out.reverse
  | .word chars, out, [] => some (.word chars.reverse :: out).reverse
  | .text _, _, [] => none
  | .between, out, c :: rest =>
    let (mode, out) := stepBetween c out
    scan mode out rest
  | .word chars, out, c :: rest =>
    if isBlank c || c = '"' || (punctuation? c).isSome then
      let (mode, out) := stepBetween c (.word chars.reverse :: out)
      scan mode out rest
    else scan (.word (c :: chars)) out rest
  | .text draft, out, '\\' :: 'u' :: a :: b :: c :: d :: rest =>
    match hex4? a b c d with
    | some u => scan (.text (draft.escape.pushUnit u)) out rest
    | none => none
  | .text draft, out, '\\' :: e :: rest =>
    match shortEscape? e with
    | some c => scan (.text (draft.escape.push c)) out rest
    | none => none
  | .text draft, out, c :: rest =>
    if c = '"' then scan .between (draft.finish :: out) rest
    else if c < ' ' || c = '\\' then none
    else scan (.text (draft.push c)) out rest

/-- The lexemes of a text. -/
def ofString? (s : String) : Option (List Lexeme) :=
  scan .between [] s.toList

end Lexeme

end ScriptHeap.Json
