import ToolSchema.Callable.Basic
import ToolSchema.Text.Basic

/-!
Declaring a callable. A declaration is refused if its name is blank, if a parameter occurs twice or
if the parameters are out of order.
-/

namespace ToolSchema

/-- What can be wrong with a declaration. -/
inductive DeclarationFault
  | blankName
  | duplicateParameter (param owner : String)
  | parameterOrder (param owner : String) (passing previous : Passing)
  | oneArgument (type : String) (count : Nat)
  | twoArguments (type : String) (count : Nat)
  | unsupportedType (type : String)
  | duplicateTool (name : String)
  | noReturnType
  /-- A fault found by an extension, in its own words. -/
  | other (message : String)
  deriving DecidableEq

def DeclarationFault.message : DeclarationFault → String
  | .blankName => "callable name must not be empty"
  | .duplicateParameter param owner => "duplicate parameter '" ++ param ++ "' in '" ++ owner ++ "'"
  | .parameterOrder param owner passing previous =>
    "parameter '" ++ param ++ "' of '" ++ owner ++ "' is " ++ passing.name ++
      " but follows a " ++ previous.name ++ " parameter"
  | .oneArgument type count =>
    type ++ " requires exactly one type argument, got " ++ toString count
  | .twoArguments type count =>
    type ++ " requires exactly two type arguments, got " ++ toString count
  | .unsupportedType type => "Unsupported type annotation: " ++ type
  | .duplicateTool name => "duplicate tool '" ++ name ++ "'"
  | .noReturnType => "Function must have a concrete return type annotation."
  | .other message => message

/-- Checks parameters from left to right, given the names that were seen and how the last parameter
is passed. -/
def Signature.checkParams (owner : String) (seen : List String) (previous : Passing) :
    List Parameter → Except DeclarationFault Unit
  | [] => .ok ()
  | param :: more =>
    if seen.contains param.name then .error (.duplicateParameter param.name owner)
    else if param.passing.rank < previous.rank then
      .error (.parameterOrder param.name owner param.passing previous)
    else checkParams owner (param.name :: seen) param.passing more

/-- Parameters have different names, and those that are passed more freely do not come first. -/
def Signature.check (signature : Signature) (owner : String) : Except DeclarationFault Unit :=
  Signature.checkParams owner [] .positionalOnly signature.params

/-- A callable before it is checked. Without a constructor it builds records. -/
structure Declaration where
  name : String
  kind : CallableKind
  doc : Option String
  signature : Option Signature
  initializer : Option Initializer
  construct : Option Constructor
  backing : Option Backing

namespace Declaration

/-- A function, which always has a signature. -/
def function (name : String) : Declaration :=
  ⟨name, .function, none, some .empty, none, none, none⟩

/-- A class, which has no signature of its own unless it is given one. -/
def classDef (name : String) (backing : Option Backing) : Declaration :=
  ⟨name, .classDef, none, none, none, none, backing⟩

/-- Adds a parameter to the callable's own signature. -/
def withParam (declaration : Declaration) (param : Parameter) : Declaration :=
  let signature := declaration.signature.getD .empty
  { declaration with signature := some { signature with params := signature.params ++ [param] } }

/-- Sets the type of the result in the callable's own signature. -/
def withReturns (declaration : Declaration) (type : TypeExpr) : Declaration :=
  let signature := declaration.signature.getD .empty
  { declaration with signature := some { signature with returns := some type } }

/-- The names under which a record stores what is passed by position. -/
def positionalNames (declaration : Declaration) : List String :=
  match declaration.signature.or (declaration.initializer.map (·.signature)) with
  | some signature => signature.positionalOnly
  | none => []

def build (declaration : Declaration) : Except DeclarationFault Callable := do
  if Text.allBlank declaration.name.toList then throw .blankName
  if let some signature := declaration.signature then signature.check declaration.name
  if let some init := declaration.initializer then init.signature.check declaration.name
  return {
    name := declaration.name
    kind := declaration.kind
    doc := declaration.doc
    signature := declaration.signature
    initializer := declaration.initializer
    construct := declaration.construct.getD (.record declaration.name declaration.positionalNames)
    backing := declaration.backing }

end Declaration

end ToolSchema
