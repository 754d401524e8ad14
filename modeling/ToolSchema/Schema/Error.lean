import ToolSchema.Callable.Declaration
import ToolSchema.Schema.Rejection
import ToolSchema.TypeExpr.Parser

/-!
The failures of the library. A schema that cannot be used at all is told apart from a value that a
schema does not accept, and only the latter can be mended by another value.
-/

namespace ToolSchema

inductive Shape
  | undefined
  | primitive
  | sequence
  | tuple
  | mapping
  | union
  | literal
  | object
  deriving DecidableEq

def Shape.name : Shape → String
  | .undefined => "undefined"
  | .primitive => "primitive"
  | .sequence => "sequence"
  | .tuple => "tuple"
  | .mapping => "mapping"
  | .union => "union"
  | .literal => "literal"
  | .object => "object"

/-- What keeps a schema from being evaluated or described. -/
inductive Obstacle
  | evalUndefined (type : String)
  | evalMapping (origin : Origin)
  | evalUnion
  | describeUndefined
  | describeTuple
  | describeMapping
  | describeUnion
  | describeEmptyUnion
  | describeLiteral
  /-- An obstacle in the schema of a field. -/
  | inField (field object : String) (inner : Obstacle)
  deriving DecidableEq

namespace Obstacle

/-- The shape of the schema where the obstacle lies. -/
def shape : Obstacle → Shape
  | .evalUndefined _ | .describeUndefined => .undefined
  | .evalMapping _ | .describeMapping => .mapping
  | .evalUnion | .describeUnion | .describeEmptyUnion => .union
  | .describeTuple => .tuple
  | .describeLiteral => .literal
  | .inField _ _ inner => inner.shape

def message : Obstacle → String
  | .evalUndefined type => "Cannot evaluate value of undefined type " ++ type
  | .evalMapping origin => "Cannot evaluate value of mapping type " ++ origin.name
  | .evalUnion => "No alternative of the union can be evaluated"
  | .describeUndefined => "JSON schema cannot be generated for missing or undefined annotations."
  | .describeTuple => "JSON schema cannot be generated for heterogeneous tuple types."
  | .describeMapping => "JSON schema cannot be generated for Mapping types."
  | .describeUnion => "JSON schema cannot be generated for non-trivial Union types."
  | .describeEmptyUnion => "JSON schema cannot be generated for a Union without alternatives."
  | .describeLiteral => "JSON schema can only be generated for string literal types."
  | .inField field object inner =>
    "field '" ++ field ++ "' of '" ++ object ++ "': " ++ inner.message

end Obstacle

inductive Error
  /-- A failure while the schema of a callable was extracted. -/
  | extraction (target : String) (cause : Error)
  /-- A callable without parameters to look at. -/
  | noSignature (target : String)
  | unsupported (obstacle : Obstacle)
  | rejected (rejection : Rejection)
  /-- A constructor refused arguments that had been accepted. -/
  | construction (name : String) (refusal : Refusal)
  | declaration (fault : DeclarationFault)
  | type (error : TypeError)
  /-- Documentation that has no reading. -/
  | unreadableDocumentation

namespace Error

def message : Error → String
  | .extraction target cause => "Failed to extract schema for " ++ target ++ ": " ++ cause.message
  | .noSignature target =>
    "Failed to extract schema for " ++ target ++ ": callable has no introspectable signature"
  | .unsupported obstacle =>
    "Unsupported schema (" ++ obstacle.shape.name ++ "): " ++ obstacle.message
  | .rejected rejection => rejection.report.text
  | .construction name refusal => "Constructor for '" ++ name ++ "' failed: " ++ refusal.message
  | .declaration fault => "Invalid declaration: " ++ fault.message
  | .type error =>
    "Cannot parse annotation '" ++ error.input ++ "' at position " ++ toString error.position ++
      ": " ++ error.fault.message
  | .unreadableDocumentation => "Documentation has no reading"

/-- The messages of the causes, the outermost first. -/
def causes : Error → List String
  | .extraction _ cause => cause.message :: cause.causes
  | .construction _ refusal => refusal.message :: refusal.causes
  | _ => []

/-- Another value can mend the failure. -/
def isRecoverable : Error → Bool
  | .rejected _ => true
  | _ => false

/-- The failure seen from the callable whose schema was extracted. -/
def within (target : String) : Error → Error
  | .unreadableDocumentation => .unreadableDocumentation
  | error => .extraction target error

end Error

end ToolSchema
