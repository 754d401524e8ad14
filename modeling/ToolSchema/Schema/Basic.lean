import ToolSchema.Schema.Error

/-!
Schemas: what a value must look like to be accepted, and what is built from it.
-/

namespace ToolSchema

structure Field (α : Type) where
  name : String
  schema : α
  hint : Option String
  required : Bool

/-- An object with a way to build a value from its fields. -/
structure ObjectSchema (α : Type) where
  name : String
  construct : Constructor
  hint : Option String
  /-- The fields that are passed by position, in order. -/
  positionalOnly : List String
  fields : List (Field α)

inductive Schema
  /-- A type that is missing, arbitrary or the absent value alone. -/
  | undefined (type : TypeExpr)
  | primitive (kind : Scalar)
  /-- Any number of items of one kind. -/
  | sequence (origin : Origin) (item : Schema)
  /-- One item for each schema. -/
  | tuple (origin : Origin) (items : List Schema)
  | mapping (origin : Origin) (key value : Schema)
  /-- Alternatives. A missing one stands for the absent value. -/
  | union (options : List (Option Schema))
  | literal (options : List Constant)
  | object (object : ObjectSchema Schema)

structure CallableSchema where
  /-- The parameters as an object. -/
  call : ObjectSchema Schema
  returns : Schema
  /-- The long description, for tools only. -/
  long : Option String

def CallableSchema.name (schema : CallableSchema) : String := schema.call.name

namespace Schema

def shape : Schema → Shape
  | .undefined _ => .undefined
  | .primitive _ => .primitive
  | .sequence _ _ => .sequence
  | .tuple _ _ => .tuple
  | .mapping _ _ _ => .mapping
  | .union _ => .union
  | .literal _ => .literal
  | .object _ => .object

mutual

def text : Schema → String
  | .undefined type => "Undefined(" ++ type.text ++ ")"
  | .primitive kind => kind.name
  | .sequence origin item => origin.name ++ "[" ++ text item ++ "]"
  | .tuple origin items => origin.name ++ "[" ++ ", ".intercalate (texts items) ++ "]"
  | .mapping origin key value => origin.name ++ "[" ++ text key ++ ", " ++ text value ++ "]"
  | .union options => " | ".intercalate (optionTexts options)
  | .literal options => "Literal[" ++ ", ".intercalate (options.map Constant.text) ++ "]"
  | .object node => node.name

def texts : List Schema → List String
  | [] => []
  | schema :: more => text schema :: texts more

def optionTexts : List (Option Schema) → List String
  | [] => []
  | some schema :: more => text schema :: optionTexts more
  | none :: more => "None" :: optionTexts more

end

/-- The absent value is one of the alternatives. -/
def isOptional (options : List (Option Schema)) : Bool := options.any Option.isNone

/-- An alternative is a scalar or the absent value. -/
def isScalarOption : Option Schema → Bool
  | none => true
  | some (.primitive _) => true
  | _ => false

/-- The union can be described without a choice between documents: it has one alternative, perhaps
besides the absent value, or scalars only. -/
def isSimpleUnion (options : List (Option Schema)) : Bool :=
  options.length == 1 || (options.length == 2 && isOptional options) ||
    options.all isScalarOption

end Schema

end ToolSchema
