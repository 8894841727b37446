/-!
# The shortest decimal of a binary floating-point number

A finite double is `m · 2^q` for natural `m`. The reals that round to it form an interval around it,
whose ends belong to it exactly when `m` is even. Among the decimals in that interval the shortest
ones are those with the fewest digits, and of these the nearest to the number is the one to print.
Two of them can be equally near, and then a rule for ties decides.

All arithmetic is exact. A decimal grid that meets the interval has one of the number's two
neighbours on the grid inside it, so for each digit count two candidates are enough.
-/

namespace ScriptHeap

/-- A decimal number `digits · 10^exponent`. -/
structure Decimal where
  digits : Nat
  exponent : Int
deriving DecidableEq, Repr, Inhabited

namespace Decimal

/-- The magnitude of a finite double, as `mantissa · 2^exponent`. -/
structure Binary where
  mantissa : Nat
  exponent : Int
  /-- Whether the next smaller double is only half as far away as the next larger one. -/
  narrowBelow : Bool
deriving DecidableEq, Repr

/-- The magnitude in the bits of a double, unless they are those of an infinity or of no number. -/
def Binary.ofBits? (bits : UInt64) : Option Binary :=
  let raw := bits.toNat
  let field : Nat := raw / Nat.pow 2 52 % Nat.pow 2 11
  let fraction : Nat := raw % Nat.pow 2 52
  if field = 2047 then none
  else if field = 0 then some ⟨fraction, -1074, false⟩
  else some ⟨Nat.pow 2 52 + fraction, (field : Int) - 1075, fraction = 0 && 1 < field⟩

/-- A non-negative rational, as a numerator over a positive denominator. -/
structure Ratio where
  num : Nat
  den : Nat
deriving DecidableEq, Repr

namespace Ratio

/-- The value `n · b^e` for a base and an integer exponent. -/
def scaled (n base : Nat) (e : Int) : Ratio :=
  if 0 ≤ e then ⟨n * Nat.pow base e.toNat, 1⟩ else ⟨n, Nat.pow base (-e).toNat⟩

def lt (a b : Ratio) : Bool := a.num * b.den < b.num * a.den

def le (a b : Ratio) : Bool := a.num * b.den ≤ b.num * a.den

end Ratio

/-- The number itself. -/
def Binary.value (b : Binary) : Ratio :=
  .scaled (4 * b.mantissa) 2 (b.exponent - 2)

/-- Whether a rational rounds to the number. -/
def Binary.covers (b : Binary) (r : Ratio) : Bool :=
  let below := if b.narrowBelow then 1 else 2
  let low := Ratio.scaled (4 * b.mantissa - below) 2 (b.exponent - 2)
  let high := Ratio.scaled (4 * b.mantissa + 2) 2 (b.exponent - 2)
  if b.mantissa % 2 = 0 then low.le r && r.le high else low.lt r && r.lt high

/-- The value of a decimal. -/
def value (d : Decimal) : Ratio :=
  .scaled d.digits 10 d.exponent

/-- The largest multiple of `10^e` that is not above a rational, as a multiple. -/
def floorAt (r : Ratio) (e : Int) : Nat :=
  if 0 ≤ e then r.num / (r.den * Nat.pow 10 e.toNat) else r.num * Nat.pow 10 (-e).toNat / r.den

/-- The decimal exponent of the leading digit: the largest `e` with `10^e` not above the number,
    searched downwards from `e`. -/
def leadingExponent (r : Ratio) : Nat → Int → Int
  | 0, e => e
  | steps + 1, e => if (Ratio.scaled 1 10 e).le r then e else leadingExponent r steps (e - 1)

/-- Whether the first rational is strictly nearer to `r` than the second, where the first is below
    `r` and the second above. -/
def nearerBelow (r below above : Ratio) : Ordering :=
  -- 2r compared with below + above, over the common denominator
  let left := 2 * r.num * below.den * above.den
  let right := (below.num * above.den + above.num * below.den) * r.den
  compare left right

/-- Which of two equally near neighbours on a grid is taken. -/
inductive Tie where
  /-- The one whose last digit is even. -/
  | toEven
  /-- The larger one. -/
  | up
deriving DecidableEq, Repr

/-- The neighbour that a rule takes. -/
def Tie.pick (tie : Tie) (down up : Decimal) : Decimal :=
  match tie with
  | .toEven => if down.digits % 2 = 0 then down else up
  | .up => up

/-- The best decimal on the grid of multiples of `10^e`, if one of them rounds to the number. Of two
    that do, the nearer is taken, and the rule for ties decides when they are equally near. -/
def onGrid (tie : Tie) (b : Binary) (e : Int) : Option Decimal :=
  let r := b.value
  let down : Decimal := ⟨floorAt r e, e⟩
  let up : Decimal := ⟨floorAt r e + 1, e⟩
  match b.covers down.value, b.covers up.value with
  | true, false => some down
  | false, true => some up
  | false, false => none
  | true, true =>
    match nearerBelow r down.value up.value with
    | .lt => some down
    | .gt => some up
    | .eq => some (tie.pick down up)

/-- Try the grids with one digit more each time. -/
def search (tie : Tie) (b : Binary) : Nat → Int → Decimal
  | 0, e => ⟨floorAt b.value e, e⟩
  | steps + 1, e => (onGrid tie b e).getD (search tie b steps (e - 1))

/-- Move trailing zeros into the exponent. -/
def normalize : Nat → Decimal → Decimal
  | 0, d => d
  | steps + 1, d =>
    if d.digits ≠ 0 ∧ d.digits % 10 = 0 then normalize steps ⟨d.digits / 10, d.exponent + 1⟩ else d

/-- The shortest decimal that rounds to a number. Seventeen digits always suffice. -/
def shortest (tie : Tie) (b : Binary) : Decimal :=
  if b.mantissa = 0 then ⟨0, 0⟩
  else
    let lead := leadingExponent b.value 640 309
    normalize 20 (search tie b 17 lead)

/-- The shortest decimal of a double's magnitude, unless it is infinite or no number. -/
def ofFloat? (tie : Tie) (x : Float) : Option Decimal :=
  (Binary.ofBits? x.toBits).map (shortest tie)

end Decimal

end ScriptHeap
