import ToolSchema.Json.Record

/-!
The documents that describe schemas to a model, and their JSON form. Reading a document tries the
kinds of documents in a fixed order and takes the first that fits.
-/

namespace ToolSchema

/-- The types of scalar values in a document. -/
inductive TypeName
  | string
  | number
  | integer
  | boolean
  | null
  deriving DecidableEq

def TypeName.name : TypeName → String
  | .string => "string"
  | .number => "number"
  | .integer => "integer"
  | .boolean => "boolean"
  | .null => "null"

def TypeName.all : List TypeName := [.string, .number, .integer, .boolean, .null]

/-- One type, or a choice of types. -/
inductive TypeChoice
  | single (type : TypeName)
  | many (types : List TypeName)
  deriving DecidableEq

inductive TypeTag
  | string
  | array
  | object
  deriving DecidableEq

def TypeTag.name : TypeTag → String
  | .string => "string"
  | .array => "array"
  | .object => "object"

def TypeTag.all : List TypeTag := [.string, .array, .object]

structure ObjectDocument (α : Type) where
  tag : TypeTag
  properties : List (String × α)
  required : List String
  description : Option String

inductive Document
  | enum (tag : TypeTag) (values : List String) (description : Option String)
  | array (tag : TypeTag) (items : Document) (description : Option String)
  | object (object : ObjectDocument Document)
  | leaf (types : TypeChoice) (description : Option String)

/-- The conventions of the interfaces that tools are declared to. -/
inductive Flavor
  | openai
  | anthropic
  deriving DecidableEq

structure ToolDocument where
  flavor : Flavor
  name : String
  description : Option String
  parameters : ObjectDocument Document

namespace Document

def description : Document → Option String
  | .enum _ _ description => description
  | .array _ _ description => description
  | .object node => node.description
  | .leaf _ description => description

def kindName : Document → String
  | .enum .. => "enum"
  | .array .. => "array"
  | .object .. => "object"
  | .leaf .. => "leaf"

/-! Writing -/

def choiceToJson : TypeChoice → Json
  | .single type => .str type.name
  | .many types => .array (types.map fun type => .str type.name)

def strings (texts : List String) : Json := .array (texts.map .str)

/-- The member for a description, if there is one. -/
def descriptionMember (description : Option String) : List (String × Json) :=
  match description with
  | some text => [("description", .str text)]
  | none => []

mutual

def toJson : Document → Json
  | .enum tag values description =>
    .object ([("type", .str tag.name), ("enum", strings values)] ++ descriptionMember description)
  | .array tag items description =>
    .object ([("type", .str tag.name), ("items", toJson items)] ++ descriptionMember description)
  | .object ⟨tag, properties, required, description⟩ =>
    .object ([("type", .str tag.name), ("properties", .object (propertiesToJson properties)),
      ("required", strings required)] ++ descriptionMember description)
  | .leaf types description =>
    .object (("type", choiceToJson types) :: descriptionMember description)

def propertiesToJson : List (String × Document) → List (String × Json)
  | [] => []
  | (name, document) :: more => (name, toJson document) :: propertiesToJson more

end

/-! Reading -/

open Json (optionalText? list? word?)

def typeName? (value : Json) : Option TypeName := do
  let word ← word? value
  TypeName.all.find? fun type => type.name == word

def typeTag? (value : Json) : Option TypeTag := do
  let word ← word? value
  TypeTag.all.find? fun tag => tag.name == word

def typeChoice? (value : Json) : Option TypeChoice :=
  match typeName? value with
  | some type => some (.single type)
  | none => (list? typeName? value).map .many

def strings? : Json → Option (List String) := list? Json.str?

def enum? (tag values description : Option Json) : Option Document := do
  return .enum (← typeTag? (← tag)) (← strings? (← values)) (← optionalText? description)

def array? (tag : Option Json) (items : Option Document) (description : Option Json) :
    Option Document := do
  return .array (← typeTag? (← tag)) (← items) (← optionalText? description)

def object? (tag : Option Json) (properties : Option (List (String × Document)))
    (required description : Option Json) : Option (ObjectDocument Document) := do
  return ⟨← typeTag? (← tag), ← properties, ← strings? (← required), ← optionalText? description⟩

def leaf? (types description : Option Json) : Option Document := do
  return .leaf (← typeChoice? (← types)) (← optionalText? description)

mutual

/-- Reads a document from an object with the members of some kind of document, or from an array of
these members in order. Other members of an object are ignored. -/
def ofJson? : Json → Option Document
  | .object members =>
    let member := Entries.get? members
    (enum? (member "type") (member "enum") (member "description")).or <|
      (array? (member "type") (items? members) (member "description")).or <|
        ((object? (member "type") (propertiesMember? members) (member "required")
          (member "description")).map .object).or <|
          leaf? (member "type") (member "description")
  | .array [tag, second, third] =>
    (enum? tag second third).or (array? tag (ofJson? second) third)
  | .array [tag, properties, required, description] =>
    (object? tag (properties? properties) required description).map .object
  | .array [types, description] => leaf? types description
  | _ => none

/-- The document among the members of an array document. -/
def items? : List (String × Json) → Option Document
  | [] => none
  | (key, value) :: more => if key = "items" then ofJson? value else items? more

/-- The properties among the members of an object document. -/
def propertiesMember? : List (String × Json) → Option (List (String × Document))
  | [] => none
  | (key, value) :: more => if key = "properties" then properties? value else propertiesMember? more

def properties? : Json → Option (List (String × Document))
  | .object members => allProperties? members
  | _ => none

def allProperties? : List (String × Json) → Option (List (String × Document))
  | [] => some []
  | (name, value) :: more =>
    match ofJson? value, allProperties? more with
    | some document, some documents => some ((name, document) :: documents)
    | _, _ => none

end

/-- The document of an object, as the parameters of a tool have it. -/
def objectOfJson? : Json → Option (ObjectDocument Document)
  | .object members =>
    let member := Entries.get? members
    object? (member "type") (propertiesMember? members) (member "required") (member "description")
  | .array [tag, properties, required, description] =>
    object? tag (properties? properties) required description
  | _ => none

end Document

namespace Flavor

def name : Flavor → String
  | .openai => "openai"
  | .anthropic => "anthropic"

/-- A word for a flavor, in any mixture of upper and lower case. -/
def parse (text : String) : Except String Flavor :=
  match text.toLower with
  | "openai" => .ok .openai
  | "anthropic" => .ok .anthropic
  | other => .error ("Unknown JSON schema flavor: " ++ other)

/-- The key of the parameters in the description of a tool. -/
def parametersKey : Flavor → String
  | .openai => "parameters"
  | .anthropic => "input_schema"

end Flavor

namespace ToolDocument

def toJson (tool : ToolDocument) : Json :=
  .object (("name", .str tool.name) :: Document.descriptionMember tool.description ++
    [(tool.flavor.parametersKey, Document.toJson (.object tool.parameters))])

/-- Reads the description of a tool in one flavor. -/
def ofJsonAs? (flavor : Flavor) (value : Json) : Option ToolDocument := do
  let (name, description, parameters) ← match value with
    | .object members =>
      let member := Entries.get? members
      some (← member "name", member "description", ← member flavor.parametersKey)
    | .array [name, description, parameters] => some (name, some description, parameters)
    | _ => none
  return ⟨flavor, ← name.str?, ← Json.optionalText? description,
    ← Document.objectOfJson? parameters⟩

/-- Reads the description of a tool in the first flavor that fits. -/
def ofJson? (value : Json) : Option ToolDocument :=
  (ofJsonAs? .openai value).or (ofJsonAs? .anthropic value)

end ToolDocument

end ToolSchema
