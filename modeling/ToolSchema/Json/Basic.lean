import ToolSchema.Entries
import ToolSchema.Number.Binary64

/-!
JSON values. Integers are kept apart from numbers with a fractional part or an exponent, and the
members of an object keep their order.
-/

namespace ToolSchema

inductive Json
  | null
  | bool (value : Bool)
  | int (value : Int)
  | float (value : Binary64)
  | str (value : String)
  | array (items : List Json)
  | object (members : List (String × Json))

namespace Json

/-- The member of an object, if the value is an object that has it. -/
def member? (value : Json) (key : String) : Option Json :=
  match value with
  | .object members => Entries.get? members key
  | _ => none

def str? : Json → Option String
  | .str text => some text
  | _ => none

/-- The integer, if it fits in 64 bits with sign. -/
def int64? : Json → Option Int64
  | .int n =>
    if Int64.minValue.toInt ≤ n ∧ n ≤ Int64.maxValue.toInt then some (Int64.ofInt n) else none
  | _ => none

/-- Every number has a nearest double-precision number. -/
def binary64? : Json → Option Binary64
  | .int n => some (Binary64.ofInt n)
  | .float x => some x
  | _ => none

mutual

/-- Every object with each key once: its first place and its last value. -/
def dedup : Json → Json
  | .array items => .array (dedupItems items)
  | .object members => .object (Entries.ofPairs (dedupMembers members))
  | value => value

def dedupItems : List Json → List Json
  | [] => []
  | item :: more => dedup item :: dedupItems more

def dedupMembers : List (String × Json) → List (String × Json)
  | [] => []
  | (key, value) :: more => (key, dedup value) :: dedupMembers more

end

end Json

end ToolSchema
