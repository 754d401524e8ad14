import ToolSchema.Number.Binary64

/-!
The fewest decimal digits that read back to a given double-precision number. Of the numbers with
that many digits which read back, the nearest is taken; a rule says what happens when two of them
are equally near.
-/

namespace ToolSchema

/-- What to do when two candidates are equally near. -/
inductive Tie
  | toEven
  | up
  deriving DecidableEq

/-- The number `digits * 10 ^ exponent`. -/
structure Decimal where
  digits : Nat
  exponent : Int
  deriving DecidableEq

namespace Decimal

/-- The count of decimal digits of a positive number. -/
def digitCount (n : Nat) : Nat := (Nat.toDigits 10 n).length

/-- Moves trailing zeros into the exponent. The fuel bounds the count of zeros. -/
def dropZeros : Nat → Decimal → Decimal
  | 0, d => d
  | fuel + 1, d =>
    if d.digits % 10 = 0 then dropZeros fuel ⟨d.digits / 10, d.exponent + 1⟩ else d

end Decimal

namespace Binary64

/-- The reals that read back to a number, with a common denominator of `2 ^ 1076`: the number
itself, and the points half way to its neighbours. They read back themselves if the significand is
even. -/
structure Interval where
  low : Nat
  value : Nat
  high : Nat
  closed : Bool

/-- Below a power of two the neighbours are twice as close as above it. -/
def interval (x : Binary64) : Interval :=
  let unit := Nat.pow 2 x.scale
  let value := 4 * x.significand * unit
  let halfDown := if x.significand = exponentWeight ∧ 1 < x.biasedExponent then unit
    else 2 * unit
  ⟨value - halfDown, value, value + 2 * unit, x.significand % 2 == 0⟩

def Interval.denominator : Nat := 4 * unitsInOne

/-- The position of the leading digit: the value lies between `10 ^ (k - 1)` and `10 ^ k`. -/
def Interval.magnitude (i : Interval) : Int :=
  if Interval.denominator ≤ i.value then Decimal.digitCount (i.value / Interval.denominator)
  else 1 - (Decimal.digitCount ((Interval.denominator - 1) / i.value) : Int)

/-- The point `digits * 10 ^ exponent` reads back, where the grid `10 ^ exponent` is given as a
fraction. -/
def Interval.holds (i : Interval) (gridNum gridDen digits : Nat) : Bool :=
  let point := digits * gridNum * Interval.denominator
  if i.closed then decide (i.low * gridDen ≤ point) && decide (point ≤ i.high * gridDen)
  else decide (i.low * gridDen < point) && decide (point < i.high * gridDen)

/-- The nearest point of a grid that reads back, if one does. Only the two neighbours of the value
on the grid can be nearest. -/
def Interval.onGrid? (i : Interval) (tie : Tie) (exponent : Int) : Option Decimal :=
  let gridNum := Nat.pow 10 exponent.toNat
  let gridDen := Nat.pow 10 (-exponent).toNat
  let num := i.value * gridDen
  let den := gridNum * Interval.denominator
  let below := num / den
  let twice := 2 * (num % den)
  let up := decide (den < twice) ||
    (twice == den && (match tie with | .up => true | .toEven => below % 2 == 1))
  match i.holds gridNum gridDen below && below != 0, i.holds gridNum gridDen (below + 1) with
  | true, true => some ⟨if up then below + 1 else below, exponent⟩
  | true, false => some ⟨below, exponent⟩
  | false, true => some ⟨below + 1, exponent⟩
  | false, false => none

/-- Tries grids of more and more digits. Seventeen digits always read back. -/
def Interval.search (i : Interval) (tie : Tie) : Nat → Int → Decimal
  | 0, exponent => ⟨i.value / Interval.denominator, exponent⟩
  | tries + 1, exponent =>
    match i.onGrid? tie exponent with
    | some d => d
    | none => i.search tie tries (exponent - 1)

/-- The shortest decimal that reads back to the magnitude of a finite number other than zero. -/
def shortest (tie : Tie) (x : Binary64) : Decimal :=
  let i := x.interval
  (i.search tie 17 (i.magnitude - 1)).dropZeros 20

end Binary64

end ToolSchema
