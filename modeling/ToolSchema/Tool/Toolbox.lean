import ToolSchema.Schema.Description
import ToolSchema.Schema.Evaluation
import ToolSchema.Tool.Response

/-!
The tools that are offered to a model. They are declared in the order in which they were added, and
called by name.
-/

namespace ToolSchema

/-- Tools by name, in the order of their addition. -/
structure Toolbox where
  tools : Entries CallableSchema

inductive Outcome
  | completed (value : Value)
  /-- The call gave the final answer. -/
  | final (value : Value)
  | rejected (rejection : Rejection)

def Outcome.isFinal : Outcome → Bool
  | .final _ => true
  | _ => false

namespace Toolbox

def empty : Toolbox := ⟨[]⟩

def names (box : Toolbox) : List String := box.tools.keys

def get? (box : Toolbox) (name : String) : Option CallableSchema := box.tools.get? name

/-- Adds a tool under its own name, which must be new. -/
def add (box : Toolbox) (tool : CallableSchema) : Except Error Toolbox :=
  if box.tools.hasKey tool.name then .error (.declaration (.duplicateTool tool.name))
  else .ok ⟨box.tools ++ [(tool.name, tool)]⟩

/-- The descriptions of all tools, in order. -/
def describe (box : Toolbox) (flavor : Flavor) (withLong : Bool) :
    Except Error (List ToolDocument) :=
  (box.tools.mapM fun (entry : String × CallableSchema) =>
    entry.2.describe flavor withLong).mapError .unsupported

/-- Calls a tool. Arguments that are not accepted are an outcome and not a failure. -/
def invoke (box : Toolbox) (name : String) (arguments : Json) : Except Error Outcome :=
  match box.get? name with
  | none => .ok (.rejected (.leaf [] (.unknownTool name)))
  | some tool =>
    match tool.eval arguments with
    | .ok value => .ok (if name = Response.toolName then .final value else .completed value)
    | .error (.rejected rejection) => .ok (.rejected rejection)
    | .error error => .error error

end Toolbox

end ToolSchema
