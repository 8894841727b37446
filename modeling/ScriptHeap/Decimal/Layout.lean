import ScriptHeap.Decimal.Shortest

/-!
# Number texts

A decimal can be laid out with its point in place, or in exponent form. Two layouts are in use: one
for data that is read back by machines, one for listings read by people.
-/

namespace ScriptHeap.Decimal

/-- How a number is laid out. -/
structure Layout where
  /-- Which of two equally near shortest decimals is written. -/
  tie : Tie
  /-- Whether the point stands in place, given the exponent of the leading digit. -/
  positional : Int → Bool
  /-- Whether a whole number keeps a point and a zero. -/
  keepsPoint : Bool
  /-- The text of a number that has no decimal. -/
  noNumber : Float → String

/-- The decimal digits of a number, without the point. -/
def digitText (d : Decimal) : List Char :=
  Nat.toDigits 10 d.digits

/-- The exponent of the leading digit. -/
def lead (d : Decimal) : Int :=
  d.exponent + d.digitText.length - 1

/-- The digits with the point in place. -/
def positionalText (keepsPoint : Bool) (d : Decimal) : List Char :=
  let digits := d.digitText
  if 0 ≤ d.exponent then
    digits ++ List.replicate d.exponent.toNat '0' ++ (if keepsPoint then ['.', '0'] else [])
  else if 0 ≤ d.lead then
    digits.take (d.lead.toNat + 1) ++ '.' :: digits.drop (d.lead.toNat + 1)
  else
    '0' :: '.' :: List.replicate (-d.lead - 1).toNat '0' ++ digits

/-- One digit before the point, and the exponent of ten with its sign. -/
def exponentText (d : Decimal) : List Char :=
  let mantissa :=
    match d.digitText with
    | [] => []
    | [first] => [first]
    | first :: rest => first :: '.' :: rest
  let sign := if d.lead < 0 then '-' else '+'
  mantissa ++ 'e' :: sign :: Nat.toDigits 10 d.lead.natAbs

/-- The text of a double in a layout. Negative numbers, negative zero included, have a sign. -/
def Layout.text (layout : Layout) (x : Float) : String :=
  match ofFloat? layout.tie x with
  | none => layout.noNumber x
  | some d =>
    let sign := if x.toBits.toNat / Nat.pow 2 63 = 1 then ['-'] else []
    let body :=
      if layout.positional d.lead then positionalText layout.keepsPoint d else exponentText d
    String.ofList (sign ++ body)

/-- Numbers in data: the point is in place between `10^-5` and `10^16`, whole numbers keep a point
    and a zero, ties go to the even digit, and what is no number is `null`. -/
def Layout.data : Layout where
  tie := .toEven
  positional e := decide (-5 ≤ e) && decide (e ≤ 15)
  keepsPoint := true
  noNumber _ := "null"

/-- Numbers in listings: the point is always in place, whole numbers have none, and ties go up. -/
def Layout.listing : Layout where
  tie := .up
  positional _ := true
  keepsPoint := false
  noNumber x := if x.isNaN then "NaN" else if x < 0 then "-inf" else "inf"

end ScriptHeap.Decimal
