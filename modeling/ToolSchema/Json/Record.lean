import ToolSchema.Json.Basic

/-!
Reading records with known fields from JSON. A record is written as an object, or as an array of its
first fields in order.
-/

namespace ToolSchema.Json

/-- What becomes of members that are not fields of the record. -/
inductive Unknown
  | refused
  | ignored
  deriving DecidableEq

def occurrences (members : List (String × Json)) (key : String) : Nat :=
  (members.filter fun member => member.1 == key).length

/-- The fields of a record, each with its value if it is given. A field is given at most once. -/
def fields? (unknown : Unknown) (names : List String) (value : Json) :
    Option (List (Option Json)) :=
  match value with
  | .object members =>
    if names.any (fun name => decide (1 < occurrences members name)) ||
        (unknown == .refused && members.any fun member => !names.contains member.1) then none
    else some (names.map fun name => Entries.get? members name)
  | .array items =>
    if names.length < items.length then none
    else some (items.map some ++ List.replicate (names.length - items.length) none)
  | _ => none

def text? (field : Option Json) : Option String := field.bind str?

/-- A text that may be left out or be null. -/
def optionalText? (field : Option Json) : Option (Option String) :=
  match field with
  | none => some none
  | some .null => some none
  | some (.str text) => some (some text)
  | some _ => none

/-- A value that may be left out, but not be null. -/
def withDefault? {α : Type} (default : α) (read : Json → Option α) (field : Option Json) :
    Option α :=
  match field with
  | none => some default
  | some value => read value

/-- A list whose items are read one by one. -/
def list? {α : Type} (read : Json → Option α) (value : Json) : Option (List α) :=
  match value with
  | .array items => items.mapM read
  | _ => none

def bool? : Json → Option Bool
  | .bool b => some b
  | _ => none

/-- A word out of several. It may also stand as the only key of an object, without a value. -/
def word? : Json → Option String
  | .str text => some text
  | .object [(text, .null)] => some text
  | _ => none

/-- The value that a word stands for. -/
def choice? {α : Type} (choices : List (String × α)) (value : Json) : Option α := do
  Entries.get? choices (← word? value)

end ToolSchema.Json
