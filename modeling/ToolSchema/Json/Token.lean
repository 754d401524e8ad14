import ToolSchema.Json.Basic
import ToolSchema.Text.Parsed

/-!
The strings and numbers of JSON text, read from the front of the text that is left.
-/

namespace ToolSchema.Json

open Text (Parsed length_dropWhile_le)

def isSpace (c : Char) : Bool := c == ' ' || c == '\n' || c == '\t' || c == '\r'

def skipSpace (text : List Char) : List Char := text.dropWhile isSpace

theorem skipSpace_length_le (text : List Char) : (skipSpace text).length ≤ text.length :=
  length_dropWhile_le isSpace text

theorem length_lt_of_skipSpace {c : Char} {text rest : List Char} (h : skipSpace text = c :: rest) :
    rest.length < text.length := by
  have := skipSpace_length_le text
  rw [h] at this
  exact this

/-! Strings -/

def hex4? (a b c d : Char) : Option Nat := do
  let a ← Binary64.hexValue? a
  let b ← Binary64.hexValue? b
  let c ← Binary64.hexValue? c
  let d ← Binary64.hexValue? d
  return ((a * 16 + b) * 16 + c) * 16 + d

def isHighSurrogate (n : Nat) : Bool := decide (0xD800 ≤ n) && decide (n < 0xDC00)

def isLowSurrogate (n : Nat) : Bool := decide (0xDC00 ≤ n) && decide (n < 0xE000)

/-- The character of an escape with one letter. -/
def simpleEscape? (c : Char) : Option Char :=
  match c with
  | '"' => some '"'
  | '\\' => some '\\'
  | '/' => some '/'
  | 'b' => some '\x08'
  | 'f' => some '\x0c'
  | 'n' => some '\n'
  | 'r' => some '\r'
  | 't' => some '\t'
  | _ => none

/-- The characters of a string up to its closing quote. Control characters must be escaped, and a
surrogate stands only in a pair. -/
def readString : (text : List Char) → Option (Parsed (List Char) text)
  | [] => none
  | '"' :: rest => some ⟨[], rest, by simp⟩
  | '\\' :: 'u' :: a :: b :: c :: d :: rest => do
    let high ← hex4? a b c d
    if isHighSurrogate high then
      match h : rest with
      | '\\' :: 'u' :: a :: b :: c :: d :: after => do
        let low ← hex4? a b c d
        if isLowSurrogate low then
          let p ← readString after
          let code := 0x10000 + (high - 0xD800) * 0x400 + (low - 0xDC00)
          return p.lift (Char.ofNat code :: ·) (by simp [h]; omega)
        else none
      | _ => none
    else if isLowSurrogate high then none
    else
      let p ← readString rest
      return p.lift (Char.ofNat high :: ·) (by simp; omega)
  | '\\' :: c :: rest => do
    let escaped ← simpleEscape? c
    let p ← readString rest
    return p.lift (escaped :: ·) (by simp; omega)
  | c :: rest => do
    if c = '\\' ∨ c.toNat < 0x20 then none
    let p ← readString rest
    return p.lift (c :: ·) (by simp)

/-! Numbers -/

def digitValue (c : Char) : Nat := c.toNat - 48

/-- Takes digits into a significand as long as it fits in 64 bits. Gives the significand and the
count of digits taken. -/
def gather (significand : Nat) : List Char → Nat × Nat
  | [] => (significand, 0)
  | digit :: more =>
    let next := significand * 10 + digitValue digit
    if next < UInt64.size then
      let (result, taken) := gather next more
      (result, taken + 1)
    else (significand, 0)

/-- The significand is multiplied by a power of ten or divided by one, in steps of `10 ^ 308`. A
product beyond the format is refused. The fuel bounds the number of steps. -/
def scaleByTen : Nat → Binary64 → Int → Option Binary64
  | 0, x, _ => some x
  | fuel + 1, x, exponent =>
    if exponent.natAbs ≤ 308 then
      let power := Binary64.ofNat (Nat.pow 10 exponent.natAbs)
      if 0 ≤ exponent then
        let product := x.mul power
        if product.isInfinite then none else some product
      else some (x.div power)
    else if x.isZero then some x
    else if 0 ≤ exponent then none
    else scaleByTen fuel (x.div (Binary64.ofNat (Nat.pow 10 308))) (exponent + 308)

/-- The double-precision number of a significand and a decimal exponent. Ten steps of `10 ^ 308`
take every significand to zero. -/
def ofParts (negative : Bool) (significand : Nat) (exponent : Int) : Option Json :=
  (scaleByTen 10 (Binary64.ofNat significand) exponent).map fun x =>
    .float (if negative then x.negate else x)

/-- The parts of a number as it is written. -/
structure NumberToken where
  negative : Bool
  whole : List Char
  fraction : Option (List Char)
  exponent : Option Int

/-- The value of a number. An integer that fits in 64 bits, with or without sign, stays an integer;
all other numbers are read in double precision, from the digits that fit in the significand. -/
def NumberToken.value? (token : NumberToken) : Option Json :=
  let (significand, taken) := gather 0 token.whole
  let left := token.whole.length - taken
  match token.fraction, token.exponent with
  | none, none =>
    if 0 < left then ofParts token.negative significand left
    else if ¬ token.negative then some (.int significand)
    else if significand = 0 ∨ -(significand : Int) < Int64.minValue.toInt then
      some (.float (Binary64.ofNat significand).negate)
    else some (.int (-significand))
  | fraction, exponent =>
    let (significand, places) := gather significand (fraction.getD [])
    ofParts token.negative significand (left - places + exponent.getD 0)

def natOfDigits (digits : List Char) : Nat :=
  digits.foldl (fun n digit => 10 * n + digitValue digit) 0

/-- Decimal exponents beyond this magnitude act like it. -/
def exponentBound : Nat := 2147483647

def readDigits (text : List Char) : Option (Parsed (List Char) text) :=
  match text with
  | [] => none
  | c :: rest =>
    if c.isDigit then
      some ⟨c :: rest.takeWhile Char.isDigit, rest.dropWhile Char.isDigit,
        Nat.lt_succ_of_le (length_dropWhile_le _ rest)⟩
    else none

/-- The digits of a fraction, with what follows them; nothing is read if there is no point. -/
def readFraction (text : List Char) : Option (Option (List Char) × List Char) :=
  match text with
  | '.' :: rest => (readDigits rest).map fun p => (some p.value, p.rest)
  | _ => some (none, text)

/-- The exponent, with what follows it; nothing is read if there is none. -/
def readExponent (text : List Char) : Option (Option Int × List Char) :=
  let signed (negative : Bool) (rest : List Char) : Option (Option Int × List Char) :=
    (readDigits rest).map fun p =>
      let magnitude := min (natOfDigits p.value) exponentBound
      (some (if negative then -magnitude else magnitude), p.rest)
  match text with
  | [] => some (none, text)
  | c :: rest =>
    if c = 'e' ∨ c = 'E' then
      match rest with
      | '+' :: more => signed false more
      | '-' :: more => signed true more
      | _ => signed false rest
    else some (none, text)

/-- The parts of a number. A leading zero stands alone. -/
def readNumberToken (text : List Char) : Option (NumberToken × List Char) := do
  let (negative, rest) := match text with
    | '-' :: rest => (true, rest)
    | _ => (false, text)
  let p ← readDigits rest
  if p.value.head? = some '0' ∧ p.value.length ≠ 1 then none
  let (fraction, rest) ← readFraction p.rest
  let (exponent, rest) ← readExponent rest
  return (⟨negative, p.value, fraction, exponent⟩, rest)

def readNumber (text : List Char) : Option (Json × List Char) := do
  let (token, rest) ← readNumberToken text
  return (← token.value?, rest)

end ToolSchema.Json
