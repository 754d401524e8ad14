import ToolSchema.Json.Writer
import ToolSchema.Text.Graphic
import ToolSchema.TypeExpr.Constant
import ToolSchema.Value.Temporal

/-!
The values that calls are made with and that they produce.
-/

namespace ToolSchema

inductive Value
  | absent
  | bool (value : Bool)
  | int (value : Int64)
  | float (value : Binary64)
  | str (value : String)
  | list (items : List Value)
  | tuple (items : List Value)
  /-- A named collection of fields. -/
  | record (name : String) (fields : List (String × Value))
  | temporal (value : Temporal)

/-- Dates and times are texts, and a duration is its number of seconds. -/
def Temporal.toJson : Temporal → Json
  | .date d => .str d.text
  | .dateTime d t => .str (d.text ++ "T" ++ t.text)
  | .time t => .str t.text
  | .duration d => .int d.seconds

/-- Temporal values are the same when they have the same JSON text. -/
def Temporal.same (a b : Temporal) : Bool := a.toJson.render == b.toJson.render

namespace Value

def int64? : Value → Option Int64
  | .int n => some n
  | _ => none

/-- A number in double precision. Integers convert. -/
def binary64? : Value → Option Binary64
  | .int n => some (Binary64.ofInt n.toInt)
  | .float x => some x
  | _ => none

def str? : Value → Option String
  | .str text => some text
  | _ => none

def bool? : Value → Option Bool
  | .bool b => some b
  | _ => none

def isAbsent : Value → Bool
  | .absent => true
  | _ => false

def recordName? : Value → Option String
  | .record name _ => some name
  | _ => none

def field? (value : Value) (name : String) : Option Value :=
  match value with
  | .record _ fields => Entries.get? fields name
  | _ => none

mutual

/-- The value as JSON. Tuples become arrays and records become objects. A number that is not finite
has no JSON form. -/
def toJson : Value → Json
  | .absent => .null
  | .bool b => .bool b
  | .int n => .int n.toInt
  | .float x => if x.isFinite then .float x else .null
  | .str text => .str text
  | .list items => .array (toJsonItems items)
  | .tuple items => .array (toJsonItems items)
  | .record _ fields => .object (toJsonFields fields)
  | .temporal value => value.toJson

def toJsonItems : List Value → List Json
  | [] => []
  | item :: more => toJson item :: toJsonItems more

def toJsonFields : List (String × Value) → List (String × Json)
  | [] => []
  | (name, value) :: more => (name, toJson value) :: toJsonFields more

end

mutual

/-- Values are the same when they have the same shape and equal parts. The order of the fields of a
record does not count. -/
def same : Value → Value → Bool
  | .absent, .absent => true
  | .bool a, .bool b => a == b
  | .int a, .int b => a == b
  | .float a, .float b => a.numEq b
  | .str a, .str b => a == b
  | .list a, .list b => sameItems a b
  | .tuple a, .tuple b => sameItems a b
  | .record m a, .record n b => m == n && a.length == b.length && sameFields a b
  | .temporal a, .temporal b => a.same b
  | _, _ => false

def sameItems : List Value → List Value → Bool
  | [], [] => true
  | x :: a, y :: b => same x y && sameItems a b
  | _, _ => false

/-- Every field of the first list has its equal in the second. -/
def sameFields : List (String × Value) → List (String × Value) → Bool
  | [], _ => true
  | (name, x) :: a, b =>
    (match Entries.get? b name with
      | some y => same x y
      | none => false) && sameFields a b

end

instance : BEq Value := ⟨same⟩

mutual

/-- The value with its shape, for inspection. -/
def inspect : Value → String
  | .absent => "None"
  | .bool b => "Bool(" ++ toString b ++ ")"
  | .int n => "Int(" ++ toString n.toInt ++ ")"
  | .float x => "Float(" ++ NumberLayout.inspection.render x ++ ")"
  | .str text => "Str(" ++ Text.quoted text ++ ")"
  | .list items => "List([" ++ ", ".intercalate (inspectItems items) ++ "])"
  | .tuple items => "Tuple([" ++ ", ".intercalate (inspectItems items) ++ "])"
  | .record name fields =>
    "Record \x7b name: " ++ Text.quoted name ++ ", fields: \x7b" ++
      ", ".intercalate (inspectFields fields) ++ "\x7d \x7d"
  | .temporal value => value.inspect

def inspectItems : List Value → List String
  | [] => []
  | item :: more => inspect item :: inspectItems more

def inspectFields : List (String × Value) → List String
  | [] => []
  | (name, value) :: more => (Text.quoted name ++ ": " ++ inspect value) :: inspectFields more

end

end Value

def Constant.toValue : Constant → Value
  | .bool b => .bool b
  | .int n => .int n
  | .float x => .float x
  | .str text => .str text

end ToolSchema
