import ToolSchema.Callable.Catalog
import ToolSchema.Extraction.Hints
import ToolSchema.Extraction.Strategy
import ToolSchema.TypeExpr.Normal

/-!
Extraction of schemas from declarations. Strategies are asked first; otherwise the types of the
parameters and of the result are brought into canonical form and converted, classes among them by
extracting their own schemas.
-/

namespace ToolSchema

/-- The strategies of an extractor, in the order in which they are asked. -/
abbrev Extractor := List Strategy

namespace Extractor

/-- The extractor that knows dates, times and durations. -/
def standard : Extractor := [.temporal]

/-- The schema of the first strategy that claims the callable. -/
def claim (extractor : Extractor) (callable : Callable) : Except Error (Option CallableSchema) :=
  match extractor with
  | [] => .ok none
  | strategy :: more => do
    match ← strategy.claim callable with
    | some schema => return some schema
    | none => Extractor.claim more callable

abbrev ClassSchemas := ClassRef → Except Error (ObjectSchema Schema)

def unsupportedType {α : Type} (type : TypeExpr) : Except Error α :=
  .error (.declaration (.unsupportedType type.text))

mutual

/-- The schema of a type in canonical form. -/
def convert (classes : ClassSchemas) : TypeExpr → Except Error Schema
  | .any => .ok (.undefined .any)
  | .null => .ok (.undefined .null)
  | .int => .ok (.primitive .int)
  | .float => .ok (.primitive .float)
  | .str => .ok (.primitive .str)
  | .bool => .ok (.primitive .bool)
  | .literal values => .ok (.literal values)
  | .union arms => do return .union (← convertArms classes arms)
  | .generic .list [item] => do return .sequence .list (← convert classes item)
  | .generic .list args =>
    .error (.declaration (.oneArgument (TypeExpr.generic .list args).text args.length))
  | .generic .tuple [item, .ellipsis] => do return .sequence .tuple (← convert classes item)
  | .generic .tuple args => do return .tuple .tuple (← convertAll classes args)
  | .generic .dict [key, value] => do
    return .mapping .dict (← convert classes key) (← convert classes value)
  | .generic .dict args =>
    .error (.declaration (.twoArguments (TypeExpr.generic .dict args).text args.length))
  | .classRef ref => do return .object (← classes ref)
  | type => unsupportedType type

def convertAll (classes : ClassSchemas) : List TypeExpr → Except Error (List Schema)
  | [] => .ok []
  | type :: more => do
    let first ← convert classes type
    return first :: (← convertAll classes more)

/-- The alternatives of a union. The absent value has no schema of its own. -/
def convertArms (classes : ClassSchemas) : List TypeExpr → Except Error (List (Option Schema))
  | [] => .ok []
  | .null :: more => do return none :: (← convertArms classes more)
  | type :: more => do
    let first ← convert classes type
    return some first :: (← convertArms classes more)

end

def schemaOf (classes : ClassSchemas) (type : TypeExpr) : Except Error Schema :=
  convert classes (type.normalize true)

def schemaOfOption (classes : ClassSchemas) (type : Option TypeExpr) : Except Error Schema :=
  match type with
  | some type => schemaOf classes type
  | none => .ok (.undefined .any)

def fieldsOf (classes : ClassSchemas) (hints : Hints) :
    List Parameter → Except Error (List (Field Schema))
  | [] => .ok []
  | param :: more => do
    let schema ← schemaOfOption classes param.type
    return ⟨param.name, schema, hints.params.get? param.name, !param.hasDefault⟩ ::
      (← fieldsOf classes hints more)

/-- The schema of a callable, given the schemas of the classes that it may name. -/
def schemaOfCallable (extractor : Extractor) (classes : ClassSchemas) (callable : Callable) :
    Except Error CallableSchema := do
  if let some schema ← extractor.claim callable then return schema
  let some signature := callable.callSignature? | throw (.noSignature callable.name)
  let some hints := Hints.ofCallable callable | throw .unreadableDocumentation
  let fields ← fieldsOf classes hints signature.params
  let returns ← schemaOfOption classes signature.returns
  return {
    call := ⟨callable.name, callable.construct, hints.object, signature.positionalOnly, fields⟩
    returns
    long := hints.long }

/-- The schema of a class, extracted from its declaration. Each declaration sees the older ones. -/
def classSchema (extractor : Extractor) : Catalog → ClassSchemas
  | [], ref => .error (.within ref.name (.noSignature ref.name))
  | callable :: older, ref =>
    if ref.index = older.length then
      match extractor.schemaOfCallable (classSchema extractor older) callable with
      | .ok schema => .ok schema.call
      | .error error => .error (.within callable.name error)
    else classSchema extractor older ref

/-- A failure that already names the callable is left as it is. -/
def named (name : String) (error : Error) : Error :=
  match error with
  | .extraction target _ => if target = name then error else .within name error
  | .noSignature target => if target = name then error else .within name error
  | _ => .within name error

/-- The schema of a callable. Every failure names the callable. -/
def extract (extractor : Extractor) (catalog : Catalog) (callable : Callable) :
    Except Error CallableSchema :=
  (extractor.schemaOfCallable (extractor.classSchema catalog) callable).mapError
    (named callable.name)

/-- The schema of a type among given declarations. -/
def extractType (extractor : Extractor) (catalog : Catalog) (type : TypeExpr) :
    Except Error Schema :=
  schemaOf (extractor.classSchema catalog) type

end Extractor

end ToolSchema
