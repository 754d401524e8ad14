/-!
The result of reading something from the front of a text. The rest is known to be shorter than the
text, so that readers can call each other on what is left.
-/

namespace ToolSchema.Text

/-- A value read from the front of `source`, and what follows it. -/
structure Parsed (α : Type) (source : List Char) where
  value : α
  rest : List Char
  shorter : rest.length < source.length

namespace Parsed

variable {α β : Type} {source whole : List Char}

/-- The same reading seen from a text that is no shorter, with another value. -/
def lift (p : Parsed α source) (f : α → β) (h : source.length ≤ whole.length) : Parsed β whole :=
  ⟨f p.value, p.rest, Nat.lt_of_lt_of_le p.shorter h⟩

/-- The same reading seen from one character before, with another value. -/
def behind (p : Parsed α source) (c : Char) (f : α → β) : Parsed β (c :: source) :=
  p.lift f (Nat.le_succ _)

def single (c : Char) (rest : List Char) (value : α) : Parsed α (c :: rest) :=
  ⟨value, rest, Nat.lt_succ_self _⟩

end Parsed

/-- A value read from the front of `source`, which may have consumed nothing. -/
structure Scanned (α : Type) (source : List Char) where
  value : α
  rest : List Char
  noLonger : rest.length ≤ source.length

theorem length_dropWhile_le (p : Char → Bool) (text : List Char) :
    (text.dropWhile p).length ≤ text.length :=
  (List.dropWhile_sublist p).length_le

end ToolSchema.Text
