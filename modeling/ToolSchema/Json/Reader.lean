import ToolSchema.Json.Skip

/-!
Reading JSON text. The raw reading keeps every member of an object, also those whose key is
repeated; the ordinary reading gives each key its first place and its last value.
-/

namespace ToolSchema.Json

open Text (Parsed)

/-- What is read of a document. The members of a record that are not among its fields are passed
over. -/
inductive Extent
  | whole
  | record (fields : List (String × Extent))

namespace Extent

/-- What is read of a member, if it is read at all. -/
def member? (extent : Extent) (key : String) : Option Extent :=
  match extent with
  | .whole => some .whole
  | .record fields => fields.lookup key

/-- What is read of an item. The items of an array stand for the fields of a record in order. -/
def item (extent : Extent) (index : Nat) : Extent :=
  match extent with
  | .whole => .whole
  | .record fields => (fields[index]?.map (·.2)).getD .whole

end Extent

mutual

/-- A value that starts at the first character. Brackets nest at most as deep as `depth` allows. -/
def readValue (extent : Extent) (depth : Nat) (text : List Char) : Option (Parsed Json text) :=
  match text with
  | 'n' :: 'u' :: 'l' :: 'l' :: rest => some ⟨.null, rest, by simp; omega⟩
  | 't' :: 'r' :: 'u' :: 'e' :: rest => some ⟨.bool true, rest, by simp; omega⟩
  | 'f' :: 'a' :: 'l' :: 's' :: 'e' :: rest => some ⟨.bool false, rest, by simp; omega⟩
  | '"' :: rest => (readString rest).map fun p => p.lift (.str <| .ofList ·) (by simp)
  | '[' :: rest =>
    if depth ≤ 1 then none
    else
      have := skipSpace_length_le rest
      match h : skipSpace rest with
      | ']' :: after => some ⟨.array [], after, by simp [h] at this ⊢; omega⟩
      | _ => (readItems extent 0 (depth - 1) rest).map fun p => p.lift .array (by simp)
  | '\x7b' :: rest =>
    if depth ≤ 1 then none
    else
      have := skipSpace_length_le rest
      match h : skipSpace rest with
      | '\x7d' :: after => some ⟨.object [], after, by simp [h] at this ⊢; omega⟩
      | _ => (readMembers extent (depth - 1) rest).map fun p => p.lift .object (by simp)
  | text => do
    let (value, rest) ← readNumber text
    if h : rest.length < text.length then return ⟨value, rest, h⟩ else none
termination_by (text.length, 0)

/-- The items of an array up to its closing bracket. -/
def readItems (extent : Extent) (index depth : Nat) (text : List Char) :
    Option (Parsed (List Json) text) := do
  have start := skipSpace_length_le text
  let p ← readValue (extent.item index) depth (skipSpace text)
  have short := Nat.lt_of_lt_of_le p.shorter start
  match h : skipSpace p.rest with
  | ']' :: after =>
    return ⟨[p.value], after, Nat.lt_trans (length_lt_of_skipSpace h) short⟩
  | ',' :: more =>
    have := Nat.lt_trans (length_lt_of_skipSpace h) short
    let q ← readItems extent (index + 1) depth more
    return q.lift (p.value :: ·) (Nat.le_of_lt this)
  | _ => none
termination_by (text.length, 1)
decreasing_by all_goals omega

/-- The members of an object up to its closing brace, without those that are passed over. -/
def readMembers (extent : Extent) (depth : Nat) (text : List Char) :
    Option (Parsed (List (String × Json)) text) := do
  match quote : skipSpace text with
  | '"' :: rest =>
    let key ← readString rest
    match colon : skipSpace key.rest with
    | ':' :: rest =>
      have short := Nat.lt_of_le_of_lt (skipSpace_length_le rest) <|
        Nat.lt_trans (length_lt_of_skipSpace colon) <|
          Nat.lt_trans key.shorter (length_lt_of_skipSpace quote)
      let name := String.ofList key.value
      let p : Parsed (List (String × Json)) (skipSpace rest) ←
        (match extent.member? name with
        | some inner =>
          (readValue inner depth (skipSpace rest)).map fun p =>
            p.lift (fun value => [(name, value)]) (Nat.le_refl _)
        | none =>
          (skipValue _ [] (skipSpace rest) (Nat.le_refl _)).map fun left => ⟨[], left.1, left.2⟩)
      have short := Nat.lt_trans p.shorter short
      match h : skipSpace p.rest with
      | '\x7d' :: after =>
        return ⟨p.value, after, Nat.lt_trans (length_lt_of_skipSpace h) short⟩
      | ',' :: more =>
        have := Nat.lt_trans (length_lt_of_skipSpace h) short
        let q ← readMembers extent depth more
        return q.lift (p.value ++ ·) (Nat.le_of_lt this)
      | _ => none
    | _ => none
  | _ => none
termination_by (text.length, 1)

end

/-- How deep the brackets of a document may nest. -/
def depthLimit : Nat := 128

/-- The document as far as it is asked for, with every member of an object as it is written. -/
def readExtent (extent : Extent) (text : String) : Option Json := do
  let p ← readValue extent depthLimit (skipSpace text.toList)
  if (skipSpace p.rest).isEmpty then return p.value else none

/-- The document, with each key of an object once. -/
def read (text : String) : Option Json := (readExtent .whole text).map dedup

end ToolSchema.Json
