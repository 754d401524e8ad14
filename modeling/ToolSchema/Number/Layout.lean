import ToolSchema.Number.Shortest

/-!
How a double-precision number is laid out as text. A layout says which numbers are written in
positional notation and how the exponent of the others looks.
-/

namespace ToolSchema

/-- The decisions of one way of writing numbers. -/
structure NumberLayout where
  tie : Tie
  /-- The exponents of the leading digit for which the number is written in positional notation,
  or every exponent. -/
  positional : Option (Int × Int)
  /-- A number without fractional digits is written with `.0`. -/
  pointZero : Bool
  /-- A positive exponent is written with a plus sign. -/
  plusSign : Bool

namespace NumberLayout

/-- The layout of numbers in JSON documents. -/
def json : NumberLayout := ⟨.toEven, some (-5, 15), true, true⟩

/-- The layout that shows values for inspection. -/
def inspection : NumberLayout := ⟨.up, some (-4, 15), true, false⟩

/-- The layout without exponents. -/
def plain : NumberLayout := ⟨.up, none, false, false⟩

/-- Positional notation, with the decimal point after the first `point` digits. -/
def positionalText (layout : NumberLayout) (digits : List Char) (point : Int) : List Char :=
  if point ≤ 0 then '0' :: '.' :: List.replicate (-point).toNat '0' ++ digits
  else if (digits.length : Int) ≤ point then
    digits ++ List.replicate (point.toNat - digits.length) '0' ++
      (if layout.pointZero then ['.', '0'] else [])
  else digits.take point.toNat ++ '.' :: digits.drop point.toNat

/-- One digit before the point, and the exponent after the last digit. -/
def scientificText (layout : NumberLayout) (digits : List Char) (exponent : Int) : List Char :=
  digits.take 1 ++ (if digits.length ≤ 1 then [] else '.' :: digits.drop 1) ++ 'e' ::
    (if exponent < 0 then ['-'] else if layout.plusSign then ['+'] else []) ++
    Nat.toDigits 10 exponent.natAbs

/-- The magnitude of a finite number. -/
def magnitudeText (layout : NumberLayout) (x : Binary64) : List Char :=
  if x.isZero then if layout.pointZero then ['0', '.', '0'] else ['0']
  else
    let d := x.shortest layout.tie
    let digits := Nat.toDigits 10 d.digits
    let exponent := d.exponent + digits.length - 1
    match layout.positional with
    | none => layout.positionalText digits (exponent + 1)
    | some (low, high) =>
      if low ≤ exponent ∧ exponent ≤ high then layout.positionalText digits (exponent + 1)
      else layout.scientificText digits exponent

def render (layout : NumberLayout) (x : Binary64) : String :=
  if x.isNaN then "NaN"
  else
    let magnitude := if x.isInfinite then ['i', 'n', 'f'] else layout.magnitudeText x
    .ofList (if x.isNegative then '-' :: magnitude else magnitude)

/-- All digits of a number without fractional part, followed by `.0`. -/
def integralText (x : Binary64) : String :=
  let digits := Nat.toDigits 10 (x.units / Binary64.unitsInOne) ++ ['.', '0']
  .ofList (if x.isNegative then '-' :: digits else digits)

end NumberLayout

end ToolSchema
