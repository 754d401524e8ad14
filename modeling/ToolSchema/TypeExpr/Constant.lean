import ToolSchema.Json.Basic
import ToolSchema.Number.Layout

/-!
Constants that a literal type lists as its values.
-/

namespace ToolSchema

inductive Constant
  | bool (value : Bool)
  | int (value : Int64)
  | float (value : Binary64)
  | str (value : String)

namespace Constant

/-- Constants of one kind with the same value. Constants of different kinds are never the same, so
`1`, `1.0` and `True` are three constants. -/
def same : Constant → Constant → Bool
  | .bool a, .bool b => a == b
  | .int a, .int b => a == b
  | .float a, .float b => a.numEq b
  | .str a, .str b => a == b
  | _, _ => false

instance : BEq Constant := ⟨same⟩

def str? : Constant → Option String
  | .str text => some text
  | _ => none

/-- A JSON value is the constant. Numbers are compared by value, an integer too large for 64 bits
in double precision; booleans are no numbers. -/
def accepts (constant : Constant) (value : Json) : Bool :=
  match constant, value with
  | .bool a, .bool b => a == b
  | .str a, .str b => a == b
  | .int a, .int n =>
    match (Json.int n).int64? with
    | some b => a == b
    | none => (Binary64.ofInt n).numEq (Binary64.ofInt a.toInt)
  | .int a, .float x => x.numEq (Binary64.ofInt a.toInt)
  | .float a, value =>
    match value.binary64? with
    | some x => x.numEq a
    | none => false
  | _, _ => false

/-- A quote inside quotes is preceded by a backslash. -/
def escapeQuote (c : Char) : List Char := if c = '\'' then ['\\', '\''] else [c]

/-- The constant as it is written in a type. -/
def text : Constant → String
  | .bool true => "True"
  | .bool false => "False"
  | .int n => toString n.toInt
  | .float x => if x.isIntegral then NumberLayout.integralText x else NumberLayout.plain.render x
  | .str value => .ofList ('\'' :: value.toList.flatMap escapeQuote ++ ['\''])

def toJson : Constant → Json
  | .bool value => .bool value
  | .int n => .int n.toInt
  | .float x => if x.isFinite then .float x else .null
  | .str value => .str value

end Constant

end ToolSchema
