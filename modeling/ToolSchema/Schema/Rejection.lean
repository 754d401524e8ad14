import ToolSchema.Json.Writer
import ToolSchema.TypeExpr.Constant

/-!
Why a JSON value is not accepted, and at which place. The rejection of a value by a union knows why
each of its alternatives rejected it.
-/

namespace ToolSchema

/-! Places inside a value -/

inductive Step
  | field (name : String)
  | index (position : Nat)
  deriving DecidableEq

/-- The steps from the root of a value to one of its parts. -/
abbrev Path := List Step

def Step.text : Step → String
  | .field name => "." ++ name
  | .index position => "[" ++ toString position ++ "]"

def Path.child (path : Path) (step : Step) : Path := path ++ [step]

def Path.text (path : Path) : String := "$" ++ String.join (path.map Step.text)

/-! Rejections -/

inductive Scalar
  | int
  | float
  | str
  | bool
  deriving DecidableEq

def Scalar.name : Scalar → String
  | .int => "int"
  | .float => "float"
  | .str => "str"
  | .bool => "bool"

/-- The word for the kind of a JSON value. -/
def Json.kindName : Json → String
  | .null => "null"
  | .bool _ => "boolean"
  | .int _ => "number"
  | .float _ => "number"
  | .str _ => "string"
  | .array _ => "array"
  | .object _ => "object"

/-- In what way a value differs from what was expected. -/
inductive Mismatch
  | notArray (value : Json)
  | notObject (value : Json)
  | notScalar (kind : Scalar) (value : Json)
  | tupleLength (expected actual : Nat)
  | noAlternative (value : Json) (union : String)
  | notListed (value : Json) (options : List Constant)
  | unexpectedField (name : String)
  | missingFields (names : List String)
  | positionalGap (field missing : String)
  | unknownTool (name : String)

def Mismatch.message : Mismatch → String
  | .notArray value => "Expected array, got " ++ value.kindName
  | .notObject value => "Expected object, got " ++ value.kindName
  | .notScalar kind value => "Expected " ++ kind.name ++ ", got " ++ value.render
  | .tupleLength expected actual =>
    "Expected tuple of length " ++ toString expected ++ ", got " ++ toString actual
  | .noAlternative value union =>
    "Value " ++ value.render ++ " does not match any of the options: " ++ union
  | .notListed value options =>
    "Value " ++ value.render ++ " is not one of [" ++
      ", ".intercalate (options.map Constant.text) ++ "]"
  | .unexpectedField name => "Unexpected field: " ++ name
  | .missingFields names => "Missing required fields: \x7b" ++ ", ".intercalate names ++ "\x7d"
  | .positionalGap field missing =>
    "Field " ++ field ++ " is passed by position and requires " ++ missing ++ " to be supplied"
  | .unknownTool name => "Unknown tool: " ++ name

/-- A mismatch at a place, with the rejections of the alternatives that were tried there. -/
inductive Rejection
  | mk (path : Path) (mismatch : Mismatch) (causes : List Rejection)

def Rejection.leaf (path : Path) (mismatch : Mismatch) : Rejection := .mk path mismatch []

/-- A rejection in words. -/
inductive Report
  | mk (path message : String) (causes : List Report)

namespace Report

def path : Report → String
  | .mk path _ _ => path

def message : Report → String
  | .mk _ message _ => message

def causes : Report → List Report
  | .mk _ _ causes => causes

mutual

/-- The report with its causes below it. -/
def text : Report → String
  | .mk path message causes =>
    "Validation error at '" ++ path ++ "': " ++ message ++ String.join (causeTexts causes)

def causeTexts : List Report → List String
  | [] => []
  | cause :: more => ("\n  - " ++ text cause) :: causeTexts more

end

end Report

namespace Rejection

mutual

def report : Rejection → Report
  | .mk path mismatch causes => .mk path.text mismatch.message (reports causes)

def reports : List Rejection → List Report
  | [] => []
  | cause :: more => report cause :: reports more

end

end Rejection

end ToolSchema
