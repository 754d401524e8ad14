/-!
Maps with text keys that keep the order in which their keys were first inserted.
-/

namespace ToolSchema

/-- Keys with their values, in order of first insertion. -/
abbrev Entries (α : Type) := List (String × α)

namespace Entries

variable {α β : Type}

/-- The value of the first entry with the key. -/
def get? (entries : Entries α) (key : String) : Option α :=
  (entries.find? fun entry => entry.1 == key).map (·.2)

/-- A new key goes to the end. A known key keeps its place and takes the new value. -/
def insert (entries : Entries α) (key : String) (value : α) : Entries α :=
  match entries with
  | [] => [(key, value)]
  | entry :: more =>
    if entry.1 = key then (key, value) :: more else entry :: Entries.insert more key value

/-- Inserts pairs from left to right. -/
def insertAll (entries : Entries α) (pairs : List (String × α)) : Entries α :=
  pairs.foldl (fun acc pair => acc.insert pair.1 pair.2) entries

/-- The map of a list of pairs: of pairs with the same key, the first fixes the place and the last
fixes the value. -/
def ofPairs (pairs : List (String × α)) : Entries α := Entries.insertAll [] pairs

def erase (entries : Entries α) (key : String) : Entries α :=
  entries.filter fun entry => entry.1 != key

def keys (entries : Entries α) : List String := entries.map (·.1)

def hasKey (entries : Entries α) (key : String) : Bool := entries.any fun entry => entry.1 == key

end Entries

end ToolSchema
