import ToolSchema.Extraction.Extractor

/-!
The tool by which a model gives its final answer. It has one argument, the answer, and it is not
needed where plain text will do.
-/

namespace ToolSchema.Response

def toolName : String := "submit_response"

def fieldName : String := "response"

def prompt : String := "Call this function to respond to the user."

def construct : Constructor := fun args =>
  match args.get? fieldName with
  | some answer => .ok answer
  | none => .error (.of ("missing argument '" ++ fieldName ++ "'"))

/-- The parameters of the tool for answers of one schema. -/
def toolSchema (answer : Schema) : ObjectSchema Schema :=
  ⟨toolName, construct, some prompt, [], [⟨fieldName, answer, none, true⟩]⟩

/-- The tool for answers of one schema, if one is needed. -/
def schema? : Schema → Option CallableSchema
  | .primitive .str => none
  | answer => some ⟨toolSchema answer, .object (toolSchema answer), none⟩

/-- The tool for the results of a callable, which must have a declared type of results. -/
def ofCallable (extractor : Extractor) (catalog : Catalog) (callable : Callable) :
    Except Error (Option CallableSchema) := do
  let schema ← extractor.extract catalog callable
  match schema.returns with
  | .undefined _ => .error (.declaration .noReturnType)
  | returns => return schema? returns

end ToolSchema.Response
