import ToolSchema.Schema.Basic
import ToolSchema.Schema.Document

/-!
The documents that describe schemas. Only schemas that a document can describe without loss have
one.
-/

namespace ToolSchema

/-- The document's word for a kind of scalars. -/
def Scalar.typeName : Scalar → TypeName
  | .int => .integer
  | .float => .number
  | .str => .string
  | .bool => .boolean

namespace Schema

/-- A hint that says something. -/
def usableHint (hint : Option String) : Option String :=
  match hint with
  | some "" => none
  | hint => hint

/-- The hints that say something, with a blank line between neighbours. -/
def joinHints (hints : List (Option String)) : Option String :=
  usableHint ("\n\n".intercalate (hints.filterMap usableHint))

/-- The kinds of the scalars among the alternatives. -/
def scalarKinds (options : List (Option Schema)) : List Scalar :=
  options.filterMap fun option =>
    match option with
    | some (.primitive kind) => some kind
    | _ => none

/-- The types of several kinds of scalars, each once. Integers are numbers, so they are not named
beside them. -/
def typeNames (kinds : List Scalar) : List TypeName :=
  let names := (kinds.map Scalar.typeName).foldl (fun seen name =>
    if seen.contains name then seen else seen ++ [name]) []
  if names.contains .number then names.filter (· != .integer) else names

def describeScalars (kinds : List Scalar) (hint : Option String) : Except Obstacle Document :=
  match typeNames kinds with
  | [] => .error .describeEmptyUnion
  | [type] => .ok (.leaf (.single type) (usableHint hint))
  | types => .ok (.leaf (.many types) (usableHint hint))

def describeLiteral (options : List Constant) (hint : Option String) : Except Obstacle Document :=
  match options.mapM Constant.str? with
  | some values => .ok (.enum .string values (usableHint hint))
  | none => .error .describeLiteral

def requiredNames {α : Type} (fields : List (Field α)) : List String :=
  (fields.filter (·.required)).map (·.name)

mutual

/-- The document of a schema. The hint comes from the field that the schema belongs to. -/
def describe : Schema → Option String → Except Obstacle Document
  | .undefined _, _ => .error .describeUndefined
  | .primitive kind, hint => .ok (.leaf (.single kind.typeName) (usableHint hint))
  | .sequence _ item, hint => do
    return .array .array (← describe item none) (usableHint hint)
  | .tuple _ _, _ => .error .describeTuple
  | .mapping _ _ _, _ => .error .describeMapping
  | .union [some schema], hint => describe schema hint
  | .union [some schema, none], hint => describe schema hint
  | .union [none, some schema], hint => describe schema hint
  | .union options, hint =>
    if options.all isScalarOption then describeScalars (scalarKinds options) hint
    else .error .describeUnion
  | .literal options, hint => describeLiteral options hint
  | .object ⟨name, _, own, _, fields⟩, hint => do
    let properties ← describeFields name fields
    return .object ⟨.object, Entries.ofPairs properties, requiredNames fields,
      joinHints [hint, own]⟩

def describeFields (object : String) :
    List (Field Schema) → Except Obstacle (List (String × Document))
  | [] => .ok []
  | ⟨name, schema, hint, _⟩ :: more =>
    match describe schema hint with
    | .error obstacle => .error (.inField name object obstacle)
    | .ok document => do return (name, document) :: (← describeFields object more)

end

def describeObject (object : ObjectSchema Schema) (hint : Option String) :
    Except Obstacle (ObjectDocument Document) := do
  let properties ← describeFields object.name object.fields
  return ⟨.object, Entries.ofPairs properties, requiredNames object.fields,
    joinHints [hint, object.hint]⟩

end Schema

namespace CallableSchema

/-- The description of a callable as a tool. The hint of its parameters becomes the description of
the tool, followed by the long description on request. -/
def describe (schema : CallableSchema) (flavor : Flavor) (withLong : Bool) :
    Except Obstacle ToolDocument := do
  let parameters ← Schema.describeObject { schema.call with hint := none } none
  return ⟨flavor, schema.name,
    Schema.joinHints [schema.call.hint, if withLong then schema.long else none], parameters⟩

end CallableSchema

end ToolSchema
