import ToolSchema.Json.Token

/-!
Passing over JSON values that nobody asks for. They must be written correctly, but need not have a
meaning: numbers may be out of range, surrogates may stand alone, and brackets may nest at any
depth. What is left is known to be shorter than a bound, so that the bound can stay the same while
the text gets shorter.
-/

namespace ToolSchema.Json

/-- What is left of a text, shorter than a bound. -/
abbrev Left (bound : Nat) := { rest : List Char // rest.length < bound }

theorem tail_lt {bound : Nat} {c : Char} {rest : List Char} (h : (c :: rest).length < bound) :
    rest.length < bound :=
  Nat.lt_of_succ_lt h

def skipString (bound : Nat) (text : List Char) (h : text.length ≤ bound) : Option (Left bound) :=
  match text with
  | [] => none
  | '"' :: rest => some ⟨rest, h⟩
  | '\\' :: 'u' :: a :: b :: c :: d :: rest =>
    if (hex4? a b c d).isSome then skipString bound rest (by simp at h; omega) else none
  | '\\' :: c :: rest =>
    if (simpleEscape? c).isSome then skipString bound rest (by simp at h; omega) else none
  | c :: rest =>
    if c = '\\' ∨ c.toNat < 0x20 then none else skipString bound rest (by simp at h; omega)

def skipScalar (bound : Nat) (text : List Char) (h : text.length ≤ bound) : Option (Left bound) :=
  match text, h with
  | 'n' :: 'u' :: 'l' :: 'l' :: rest, h => some ⟨rest, tail_lt (tail_lt (tail_lt h))⟩
  | 't' :: 'r' :: 'u' :: 'e' :: rest, h => some ⟨rest, tail_lt (tail_lt (tail_lt h))⟩
  | 'f' :: 'a' :: 'l' :: 's' :: 'e' :: rest, h =>
    some ⟨rest, tail_lt (tail_lt (tail_lt (tail_lt h)))⟩
  | '"' :: rest, h => skipString bound rest (Nat.le_of_lt h)
  | text, h => do
    let (_, rest) ← readNumberToken text
    if short : rest.length < text.length then return ⟨rest, Nat.lt_of_lt_of_le short h⟩ else none

inductive Bracket
  | array
  | object
  deriving DecidableEq

def Bracket.closing : Bracket → Char
  | .array => ']'
  | .object => '\x7d'

mutual

/-- Passes over a value, and over what follows it until the brackets around it are closed. -/
def skipValue (bound : Nat) (brackets : List Bracket) (text : List Char)
    (h : text.length ≤ bound) : Option (Left bound) :=
  match start : skipSpace text with
  | '[' :: rest =>
    have := length_lt_of_skipSpace start
    skipContent bound .array brackets rest (Nat.lt_of_lt_of_le this h)
  | '\x7b' :: rest =>
    have := length_lt_of_skipSpace start
    skipContent bound .object brackets rest (Nat.lt_of_lt_of_le this h)
  | front => do
    let left ← skipScalar text.length front (start ▸ skipSpace_length_le text)
    have := left.2
    skipAfter bound brackets left.1 (Nat.lt_of_lt_of_le this h)
termination_by (text.length, 1)

/-- Passes over what stands between brackets, which may be nothing. -/
def skipContent (bound : Nat) (bracket : Bracket) (brackets : List Bracket) (text : List Char)
    (h : text.length < bound) : Option (Left bound) :=
  match start : skipSpace text with
  | c :: rest =>
    have := length_lt_of_skipSpace start
    if c = bracket.closing then skipAfter bound brackets rest (Nat.lt_trans this h)
    else skipEntry bound bracket brackets text (Nat.le_of_lt h)
  | [] => none
termination_by (text.length, 3)

def skipEntry (bound : Nat) (bracket : Bracket) (brackets : List Bracket) (text : List Char)
    (h : text.length ≤ bound) : Option (Left bound) :=
  match bracket with
  | .array => skipValue bound (.array :: brackets) text h
  | .object =>
    match start : skipSpace text with
    | '"' :: rest => do
      let left ← skipString text.length rest (Nat.le_of_lt (length_lt_of_skipSpace start))
      match colon : skipSpace left.1 with
      | ':' :: rest =>
        have := Nat.lt_trans (length_lt_of_skipSpace colon) left.2
        skipValue bound (.object :: brackets) rest (Nat.le_of_lt (Nat.lt_of_lt_of_le this h))
      | _ => none
    | _ => none
termination_by (text.length, 2)

/-- Passes over what follows a value until the brackets around it are closed. -/
def skipAfter (bound : Nat) (brackets : List Bracket) (text : List Char)
    (h : text.length < bound) : Option (Left bound) :=
  match brackets with
  | [] => some ⟨text, h⟩
  | bracket :: outer =>
    match start : skipSpace text with
    | c :: rest =>
      have := length_lt_of_skipSpace start
      if c = bracket.closing then skipAfter bound outer rest (Nat.lt_trans this h)
      else if c = ',' then skipEntry bound bracket outer rest (Nat.le_of_lt (Nat.lt_trans this h))
      else none
    | [] => none
termination_by (text.length, 0)

end

end ToolSchema.Json
