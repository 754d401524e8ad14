import ToolSchema.Value.Call

/-!
Records whose missing fields take default values.
-/

namespace ToolSchema

mutual

/-- A JSON value as a default. Objects become records, and integers that do not fit in 64 bits with
sign are taken in double precision. -/
def Value.ofJson : Json → Value
  | .null => .absent
  | .bool b => .bool b
  | .int n =>
    match (Json.int n).int64? with
    | some n => .int n
    | none => .float (Binary64.ofInt n)
  | .float x => .float x
  | .str text => .str text
  | .array items => .list (Value.ofItems items)
  | .object members => .record "dict" (Value.ofMembers members)

def Value.ofItems : List Json → List Value
  | [] => []
  | item :: more => Value.ofJson item :: Value.ofItems more

def Value.ofMembers : List (String × Json) → List (String × Value)
  | [] => []
  | (name, value) :: more => (name, Value.ofJson value) :: Value.ofMembers more

end

/-- A field of a record that a call fills. -/
structure RecordField where
  name : String
  positionalOnly : Bool
  default : Option Value

/-- The values of the fields in order: what was passed, or else the default. A field with neither is
left out. -/
def RecordField.fill (positional : List Value) (keyword : Entries Value) :
    List RecordField → List (String × Value)
  | [] => []
  | field :: more =>
    let passed := if field.positionalOnly then positional.head? else keyword.get? field.name
    let positional := if field.positionalOnly then positional.tail else positional
    match passed.or field.default with
    | some value => (field.name, value) :: fill positional keyword more
    | none => fill positional keyword more

/-- The constructor of records that knows the defaults of their fields. -/
def Constructor.recordWithDefaults (name : String) (fields : List RecordField) : Constructor :=
  fun args => .ok (.record name (RecordField.fill args.positional args.keyword fields))

end ToolSchema
