import ToolSchema.Value.Basic

/-!
The arguments of a call, and what calls a constructor makes of them.
-/

namespace ToolSchema

/-- Arguments that have been checked. Those that are passed by position come in the order of their
declaration, and so do those that are passed by name. -/
structure Arguments where
  positional : List Value
  keyword : Entries Value

/-- Why a constructor refused its arguments: a message, and the chain of its causes. -/
structure Refusal where
  message : String
  causes : List String
  deriving DecidableEq

/-- What builds a value from arguments. -/
abbrev Constructor := Arguments → Except Refusal Value

def Refusal.of (message : String) : Refusal := ⟨message, []⟩

/-- The same refusal with a message in front of it. -/
def Refusal.within (message : String) (cause : Refusal) : Refusal :=
  ⟨message, cause.message :: cause.causes⟩

namespace Arguments

def empty : Arguments := ⟨[], []⟩

def get? (args : Arguments) (name : String) : Option Value := args.keyword.get? name

def notInteger (name : String) (value : Value) : Refusal :=
  .of ("argument '" ++ name ++ "' is not an integer: " ++ value.inspect)

def int (args : Arguments) (name : String) : Except Refusal Int64 :=
  match args.get? name with
  | none => .error (.of ("missing argument '" ++ name ++ "'"))
  | some (.int n) => .ok n
  | some value => .error (notInteger name value)

/-- An integer that was passed by name, or a default if it was not passed. -/
def intOr (args : Arguments) (name : String) (default : Int64) : Except Refusal Int64 :=
  match args.get? name with
  | none => .ok default
  | some (.int n) => .ok n
  | some value => .error (notInteger name value)

end Arguments

/-- The constructor of records. Values that are passed by position are stored under the given names
in their order, and the others under their own names. -/
def Constructor.record (name : String) (positionalNames : List String) : Constructor := fun args =>
  .ok (.record name
    ((Entries.ofPairs (positionalNames.zip args.positional)).insertAll args.keyword))

end ToolSchema
