import ToolSchema.TypeExpr.Basic
import ToolSchema.Value.Calendar

/-!
Functions and classes as they are declared: their parameters with types and documentation, and the
constructor that a call ends in.
-/

namespace ToolSchema

inductive Passing
  | positionalOnly
  | positionalOrKeyword
  | keywordOnly
  deriving DecidableEq

def Passing.name : Passing → String
  | .positionalOnly => "PositionalOnly"
  | .positionalOrKeyword => "PositionalOrKeyword"
  | .keywordOnly => "KeywordOnly"

/-- Parameters of a lower rank come first. -/
def Passing.rank : Passing → Nat
  | .positionalOnly => 0
  | .positionalOrKeyword => 1
  | .keywordOnly => 2

structure Parameter where
  name : String
  passing : Passing
  /-- The declared type, if there is one. -/
  type : Option TypeExpr
  hasDefault : Bool

structure Signature where
  params : List Parameter
  /-- The declared type of the result, if there is one. -/
  returns : Option TypeExpr

namespace Signature

def empty : Signature := ⟨[], none⟩

/-- The parameter by which a method receives its object. -/
def receiver : String := "self"

/-- The signature as a caller sees it. -/
def withoutReceiver (signature : Signature) : Signature :=
  { signature with params := signature.params.filter fun param => param.name != receiver }

/-- The names of the parameters that can be passed by position only, in order. -/
def positionalOnly (signature : Signature) : List String :=
  (signature.params.filter fun param => param.passing == .positionalOnly).map (·.name)

end Signature

/-- What a class says about the creation of its objects. -/
structure Initializer where
  doc : Option String
  signature : Signature

inductive CallableKind
  | function
  | classDef
  deriving DecidableEq

def CallableKind.name : CallableKind → String
  | .function => "Function"
  | .classDef => "Class"

/-- The kind of built-in values that a class stands for. -/
inductive Backing
  | temporal (kind : TemporalKind)
  | other
  deriving DecidableEq

structure Callable where
  name : String
  kind : CallableKind
  doc : Option String
  /-- The signature of a function, or one that a class declares for itself. -/
  signature : Option Signature
  initializer : Option Initializer
  construct : Constructor
  backing : Option Backing

namespace Callable

def isClass (callable : Callable) : Bool := callable.kind == .classDef

/-- The parameters that a caller passes: those of the callable itself, or else those of its
initializer without the receiver. -/
def callSignature? (callable : Callable) : Option Signature :=
  callable.signature.or (callable.initializer.map fun init => init.signature.withoutReceiver)

/-- The declaration of a class of built-in values. -/
def temporal (kind : TemporalKind) : Callable where
  name := kind.name
  kind := .classDef
  doc := none
  signature := none
  initializer := none
  construct := .temporal kind
  backing := some (.temporal kind)

end Callable

end ToolSchema
