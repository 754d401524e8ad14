import ToolSchema.TypeExpr.Basic

/-!
Canonical types. Names and tags are looked through, unions are flat and free of repetitions, and
the constants of a union stand together in one literal at its end. On request abstract containers
are replaced by concrete ones.
-/

namespace ToolSchema.TypeExpr

/-- The arms of a type: those of a union, or the type alone. -/
def arms : TypeExpr → List TypeExpr
  | .union arms => arms
  | t => [t]

/-- The constants of the literal arms, in order. -/
def constants : List TypeExpr → List Constant
  | [] => []
  | .literal values :: more => values ++ constants more
  | _ :: more => constants more

def isLiteral : TypeExpr → Bool
  | .literal _ => true
  | _ => false

/-- A single arm stands for itself. -/
def ofArms : List TypeExpr → TypeExpr
  | [t] => t
  | arms => .union arms

/-- The union of canonical types: equal arms once, and all constants in one literal at the end. -/
def merge (leaves : List TypeExpr) : TypeExpr :=
  let others := (leaves.filter fun t => !t.isLiteral).eraseDups
  let values := (constants leaves).eraseDups
  ofArms (if values.isEmpty then others else others ++ [.literal values])

mutual

/-- The canonical form of a type. -/
def normalize (concretize : Bool) : TypeExpr → TypeExpr
  | .alias _ target => normalize concretize target
  | .tagged inner _ => normalize concretize inner
  | .literal values => .literal values.eraseDups
  | .union arms => merge ((normalizeAll concretize arms).flatMap TypeExpr.arms)
  | .generic origin args =>
    .generic (if concretize then origin.concretize else origin) (normalizeAll concretize args)
  | .any => .any
  | .null => .null
  | .int => .int
  | .float => .float
  | .str => .str
  | .bool => .bool
  | .ellipsis => .ellipsis
  | .classRef ref => .classRef ref

def normalizeAll (concretize : Bool) : List TypeExpr → List TypeExpr
  | [] => []
  | t :: more => normalize concretize t :: normalizeAll concretize more

end

/-- What an optional type is besides absent. Only a union with an arm for the absent value is
optional. -/
def unpackOptional : TypeExpr → Option TypeExpr
  | .union arms =>
    if arms.any isNull then
      match arms.filter fun t => !t.isNull with
      | [] => some .null
      | rest => some (ofArms rest)
    else none
  | _ => none

end ToolSchema.TypeExpr
