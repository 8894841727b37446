/-!
# JSON number literals

A literal is read in one of two ways. As a natural number it must have neither a sign, nor a
fraction, nor an exponent. As a floating-point number it is rounded in two steps: the leading digits
that fit a 64-bit word give a first double, which is then multiplied or divided by a power of ten.
-/

namespace ScriptHeap.Json

/-- A number literal, cut into its parts. -/
structure Numeral where
  negative : Bool
  integer : List Char
  fraction : Option (List Char)
  exponent : Option Int
deriving DecidableEq, Repr

namespace Numeral

/-- The value of a digit. -/
def digit (c : Char) : Nat :=
  c.toNat - '0'.toNat

/-- The number that a run of digits denotes. -/
def ofDigits (digits : List Char) : Nat :=
  digits.foldl (fun n c => n * 10 + digit c) 0

/-- An exponent: an optional sign, and at least one digit. -/
def exponent? : List Char → Option Int
  | '+' :: digits => magnitude? digits
  | '-' :: digits => (magnitude? digits).map fun n => -n
  | digits => magnitude? digits
where
  magnitude? (digits : List Char) : Option Int :=
    if digits.isEmpty || !digits.all Char.isDigit then none else some (ofDigits digits)

/-- The part of a literal after its integer digits. -/
def tail? (negative : Bool) (integer : List Char) : List Char → Option Numeral
  | [] => some ⟨negative, integer, none, none⟩
  | '.' :: rest =>
    let fraction := rest.takeWhile Char.isDigit
    if fraction.isEmpty then none
    else
      match rest.dropWhile Char.isDigit with
      | [] => some ⟨negative, integer, some fraction, none⟩
      | c :: power =>
        if c = 'e' ∨ c = 'E' then
          (exponent? power).map fun e => ⟨negative, integer, some fraction, some e⟩
        else none
  | c :: power =>
    if c = 'e' ∨ c = 'E' then (exponent? power).map fun e => ⟨negative, integer, none, some e⟩
    else none

/-- The part of a literal after its sign: digits without leading zeros come first. -/
def body? (negative : Bool) (body : List Char) : Option Numeral :=
  match body.takeWhile Char.isDigit with
  | [] => none
  | '0' :: _ :: _ => none
  | integer => tail? negative integer (body.dropWhile Char.isDigit)

/-- The parts of a literal: a sign, digits without leading zeros, a fraction and an exponent, of
    which all but the digits may be missing. -/
def ofChars? : List Char → Option Numeral
  | '-' :: rest => body? true rest
  | rest => body? false rest

/-- One more than the largest number of a 64-bit word. -/
def wordLimit : Nat := 18446744073709551616

/-- The number that a run of digits denotes, digit by digit, as long as it fits a word. -/
def word? (digits : List Char) : Option Nat :=
  digits.foldlM
    (fun n c =>
      let next := n * 10 + digit c
      if next < wordLimit then some next else none)
    0

/-- The literal as a natural number of 64 bits. -/
def toWord? (n : Numeral) : Option Nat :=
  if n.negative || n.fraction.isSome || n.exponent.isSome then none
  else
    let value := ofDigits n.integer
    if value < wordLimit then some value else none

/-- The leading digits that fit a word, and how many of the rest were left out. -/
def leadingWord (start : Nat) : List Char → Nat × Nat
  | [] => (start, 0)
  | c :: rest =>
    let next := start * 10 + digit c
    if next < wordLimit then leadingWord next rest else (start, rest.length + 1)

/-- The digits of a fraction that still fit a word after the integer digits, and how many there
    are. -/
def fractionWord (start : Nat) : List Char → Nat × Nat
  | [] => (start, 0)
  | c :: rest =>
    let next := start * 10 + digit c
    if next < wordLimit then
      let (word, used) := fractionWord next rest
      (word, used + 1)
    else (start, 0)

/-- The power `10^n` as a double. -/
def tenTo (n : Nat) : Float :=
  Float.ofScientific 1 false n

/-- Scale a double by a power of ten. There is no result when it grows beyond the largest double. -/
def scaleByTen (steps : Nat) (x : Float) (e : Int) : Option Float :=
  match steps with
  | 0 => some x
  | steps + 1 =>
    if e.natAbs ≤ 308 then
      if 0 ≤ e then
        let y := x * tenTo e.toNat
        if y.isInf then none else some y
      else some (x / tenTo e.natAbs)
    else if x == 0 then some x
    else if 0 ≤ e then none
    else scaleByTen steps (x / tenTo 308) (e + 308)

/-- The literal as a double, unless it is out of range. -/
def toFloat? (n : Numeral) : Option Float :=
  let (word, dropped) := leadingWord 0 n.integer
  let (word, used) := fractionWord word (n.fraction.getD [])
  let scale : Int := dropped - used + n.exponent.getD 0
  (scaleByTen 8 (Float.ofNat word) scale).map fun x => if n.negative then -x else x

end Numeral

end ScriptHeap.Json
