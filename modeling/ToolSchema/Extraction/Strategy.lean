import ToolSchema.Schema.Basic

/-!
Strategies, which may supply the schema of a callable before its signature is looked at.
-/

namespace ToolSchema

/-- A strategy claims a callable by giving its schema. -/
structure Strategy where
  name : String
  claim : Callable → Except Error (Option CallableSchema)

namespace Strategy

def intFields (required : Bool) (names : List String) : List (Field Schema) :=
  names.map fun name => ⟨name, .primitive .int, none, required⟩

/-- The fields that describe a date, a time of day or a duration. -/
def temporalFields : TemporalKind → List (Field Schema)
  | .date => intFields true ["year", "month", "day"]
  | .dateTime =>
    intFields true ["year", "month", "day"] ++ intFields false ["hour", "minute", "second"]
  | .time => intFields false ["hour", "minute", "second"]
  | .duration => intFields false ["days", "seconds"]

/-- The schema of a class of dates, times or durations. -/
def temporalSchema (name : String) (kind : TemporalKind) : CallableSchema where
  call := ⟨name, .temporal kind, none, [], temporalFields kind⟩
  returns := .undefined .null
  long := none

/-- Supplies the schemas of classes that stand for dates, times and durations. -/
def temporal : Strategy where
  name := "datetime"
  claim callable :=
    match callable.backing with
    | some (.temporal kind) => .ok (some (temporalSchema callable.name kind))
    | _ => .ok none

end Strategy

end ToolSchema
