import ToolSchema.Number.Binary64

/-!
Numbers read from decimal text: integers of 64 bits with sign, and double-precision numbers
rounded once.
-/

namespace ToolSchema

namespace Number

/-- The number written by a run of decimal digits. -/
def ofDigits (digits : List Char) : Nat :=
  digits.foldl (fun n digit => 10 * n + (digit.toNat - 48)) 0

/-- A nonempty run of decimal digits and nothing else. -/
def isDigits (text : List Char) : Bool := !text.isEmpty && text.all Char.isDigit

/-- The sign of a number, and what follows it. -/
def splitSign : List Char → Bool × List Char
  | '-' :: rest => (true, rest)
  | '+' :: rest => (false, rest)
  | text => (false, text)

/-- The integer that is written, if it fits in 64 bits with sign. -/
def int64? (text : List Char) : Option Int64 :=
  let (negative, digits) := splitSign text
  let n : Int := if negative then -ofDigits digits else ofDigits digits
  if isDigits digits ∧ Int64.minValue.toInt ≤ n ∧ n ≤ Int64.maxValue.toInt then
    some (Int64.ofInt n)
  else none

/-- The exponent of a number: nothing at all, or a letter with an integer after it. -/
def exponent? : List Char → Option Int
  | [] => some 0
  | mark :: rest =>
    let (negative, digits) := splitSign rest
    if (mark = 'e' ∨ mark = 'E') ∧ isDigits digits then
      some (if negative then -ofDigits digits else ofDigits digits)
    else none

/-- The double-precision number nearest to the decimal that is written. Digits may be missing on
one side of the point, but not on both. -/
def binary64? (text : List Char) : Option Binary64 :=
  let (negative, rest) := splitSign text
  let whole := rest.takeWhile Char.isDigit
  let (fraction, rest) := match rest.dropWhile Char.isDigit with
    | '.' :: rest => (rest.takeWhile Char.isDigit, rest.dropWhile Char.isDigit)
    | rest => ([], rest)
  if whole.isEmpty && fraction.isEmpty then none
  else (exponent? rest).map fun exponent =>
    Binary64.ofDecimal negative (ofDigits (whole ++ fraction)) (exponent - fraction.length)

end Number

end ToolSchema
