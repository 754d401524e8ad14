/-!
Double-precision numbers as words of 64 bits, with exact integer arithmetic.
A finite number is its significand times a power of two, counted in units of `2 ^ (-1074)`, the
smallest positive number of the format. Every operation forms the exact result and rounds it once,
to the nearest number and to the even one of two equally near.
-/

namespace ToolSchema

/-- A double-precision number, given by its bits. Two zeros and many NaNs are told apart. -/
structure Binary64 where
  bits : UInt64
  deriving DecidableEq

namespace Binary64

/-- The weight of the sign in a word. -/
def signWeight : Nat := Nat.pow 2 63

/-- The weight of the exponent's last bit in a word, which is also the weight of a significand's
leading bit. -/
def exponentWeight : Nat := Nat.pow 2 52

def unitsInOne : Nat := Nat.pow 2 1074

def word (x : Binary64) : Nat := x.bits.toNat

def isNegative (x : Binary64) : Bool := decide (signWeight ≤ x.word)

def biasedExponent (x : Binary64) : Nat := x.word / exponentWeight % 2048

def fraction (x : Binary64) : Nat := x.word % exponentWeight

def isFinite (x : Binary64) : Bool := x.biasedExponent != 2047

def isNaN (x : Binary64) : Bool := x.biasedExponent == 2047 && x.fraction != 0

def isInfinite (x : Binary64) : Bool := x.biasedExponent == 2047 && x.fraction == 0

/-- The fraction with the leading bit that the word leaves out. -/
def significand (x : Binary64) : Nat :=
  if x.biasedExponent = 0 then x.fraction else exponentWeight + x.fraction

/-- The place of the last bit of the significand, counted from the smallest one. -/
def scale (x : Binary64) : Nat := x.biasedExponent - 1

/-- The magnitude of a finite number in units of `2 ^ (-1074)`. -/
def units (x : Binary64) : Nat := x.significand * Nat.pow 2 x.scale

def isZero (x : Binary64) : Bool := x.isFinite && x.units == 0

/-- A finite number without a fractional part. -/
def isIntegral (x : Binary64) : Bool := x.isFinite && x.units % unitsInOne == 0

/-- Numbers are equal when their values are: the zeros are equal, and a NaN differs from every
number, itself included. -/
def numEq (x y : Binary64) : Bool :=
  !x.isNaN && !y.isNaN && (decide (x = y) || (x.isZero && y.isZero))

def ofWord (n : Nat) : Binary64 := ⟨UInt64.ofNat n⟩

def infinity (negative : Bool) : Binary64 :=
  ofWord ((if negative then signWeight else 0) + 2047 * exponentWeight)

/-- The quotient rounded to the nearest integer, and to the even one of two equally near. -/
def roundQuotient (num den : Nat) : Nat :=
  let floor := num / den
  let twice := 2 * (num % den)
  if twice < den then floor
  else if den < twice then floor + 1
  else floor + floor % 2

/-- The number nearest to `num / den` units, where the denominator is positive. Beyond the largest
number of the format the result is infinite. -/
def ofUnits (negative : Bool) (num den : Nat) : Binary64 :=
  let whole := num / den
  let scale := if whole < 2 * exponentWeight then 0 else whole.log2 - 52
  let magnitude := scale * exponentWeight + roundQuotient num (den * Nat.pow 2 scale)
  if magnitude < 2047 * exponentWeight then
    ofWord ((if negative then signWeight else 0) + magnitude)
  else infinity negative

/-- The number nearest to `num / den`. -/
def ofRatio (negative : Bool) (num den : Nat) : Binary64 :=
  ofUnits negative (num * unitsInOne) den

def ofNat (n : Nat) : Binary64 := ofRatio false n 1

def ofInt (n : Int) : Binary64 := ofRatio (decide (n < 0)) n.natAbs 1

/-- The number nearest to `digits * 10 ^ exponent`. Exponents far outside the format are answered
without forming the power. -/
def ofDecimal (negative : Bool) (digits : Nat) (exponent : Int) : Binary64 :=
  let top := (Nat.toDigits 10 digits).length + exponent
  if digits = 0 ∨ top < -400 then ofRatio negative 0 1
  else if 400 < top then infinity negative
  else if 0 ≤ exponent then ofRatio negative (digits * Nat.pow 10 exponent.toNat) 1
  else ofRatio negative digits (Nat.pow 10 (-exponent).toNat)

def negate (x : Binary64) : Binary64 := ⟨x.bits ^^^ 0x8000000000000000⟩

/-- The product of two finite numbers that are not negative. -/
def mul (x y : Binary64) : Binary64 := ofUnits false (x.units * y.units) unitsInOne

/-- The quotient of two finite numbers that are not negative, the second one positive. -/
def div (x y : Binary64) : Binary64 := ofUnits false (x.units * unitsInOne) y.units

def hexValue? (c : Char) : Option Nat :=
  if '0' ≤ c ∧ c ≤ '9' then some (c.toNat - 48)
  else if 'a' ≤ c ∧ c ≤ 'f' then some (c.toNat - 87)
  else if 'A' ≤ c ∧ c ≤ 'F' then some (c.toNat - 55)
  else none

end Binary64

end ToolSchema
