import ToolSchema.TypeExpr.Constant
import ToolSchema.TypeExpr.Origin

/-!
Types of parameters and results, as they are declared. A type is a tree; the classes it names are
references to declarations that are kept elsewhere.
-/

namespace ToolSchema

/-- A class by its name and by the position of its declaration among all declarations. The position
tells two declarations of one name apart. -/
structure ClassRef where
  name : String
  index : Nat
  deriving DecidableEq

inductive TypeExpr
  /-- Any value. A parameter without a type means this one. -/
  | any
  /-- The type of the absent value. -/
  | null
  | int
  | float
  | str
  | bool
  /-- A name for another type. -/
  | alias (name : String) (target : TypeExpr)
  /-- A type with tags that carry no structure. -/
  | tagged (inner : TypeExpr) (tags : List String)
  /-- Exactly the listed constants. -/
  | literal (values : List Constant)
  | union (arms : List TypeExpr)
  /-- A container, with its arguments if it has any. -/
  | generic (origin : Origin) (args : List TypeExpr)
  /-- The mark that repeats the first argument of a tuple. -/
  | ellipsis
  | classRef (ref : ClassRef)

namespace TypeExpr

def isNull : TypeExpr → Bool
  | .null => true
  | _ => false

def optional (inner : TypeExpr) : TypeExpr := .union [inner, .null]

mutual

/-- Structural equality, with constants compared as constants and classes by their declaration. -/
def same : TypeExpr → TypeExpr → Bool
  | .any, .any => true
  | .null, .null => true
  | .int, .int => true
  | .float, .float => true
  | .str, .str => true
  | .bool, .bool => true
  | .alias a s, .alias b t => a == b && same s t
  | .tagged s tags, .tagged t tags' => same s t && tags == tags'
  | .literal a, .literal b => a == b
  | .union a, .union b => sameAll a b
  | .generic o a, .generic p b => o == p && sameAll a b
  | .ellipsis, .ellipsis => true
  | .classRef a, .classRef b => a.index == b.index
  | _, _ => false

def sameAll : List TypeExpr → List TypeExpr → Bool
  | [], [] => true
  | s :: a, t :: b => same s t && sameAll a b
  | _, _ => false

end

instance : BEq TypeExpr := ⟨same⟩

mutual

def text : TypeExpr → String
  | .any => "Any"
  | .null => "None"
  | .int => "int"
  | .float => "float"
  | .str => "str"
  | .bool => "bool"
  | .alias name _ => name
  | .tagged inner tags =>
    "Annotated[" ++ text inner ++ String.join (tags.map fun tag => ", '" ++ tag ++ "'") ++ "]"
  | .literal values => "Literal[" ++ ", ".intercalate (values.map Constant.text) ++ "]"
  | .union arms => " | ".intercalate (textAll arms)
  | .generic origin [] => origin.name
  | .generic origin args => origin.name ++ "[" ++ ", ".intercalate (textAll args) ++ "]"
  | .ellipsis => "..."
  | .classRef ref => ref.name

def textAll : List TypeExpr → List String
  | [] => []
  | t :: more => text t :: textAll more

end

end TypeExpr

end ToolSchema
