import ToolSchema.Callable.Basic
import ToolSchema.Documentation.Reading
import ToolSchema.Entries

/-!
What the documentation of a callable contributes to its schema.
-/

namespace ToolSchema

structure Hints where
  /-- The short description. -/
  object : Option String
  long : Option String
  params : Entries String

namespace Hints

def none : Hints := ⟨.none, .none, []⟩

/-- The hints for the parameters of one documentation. The first entry of a name decides. -/
def paramHints (doc : Documentation) : List (String × String) :=
  doc.params.filterMap fun entry => (doc.hint? entry.name).map (entry.name, ·)

/-- Fills what is still missing from further documentation. -/
def absorb (hints : Hints) (doc : Documentation) : Hints where
  object := hints.object.or doc.short
  long := hints.long.or doc.long
  params := (paramHints doc).foldl (fun params (name, hint) =>
    if params.hasKey name then params else params ++ [(name, hint)]) hints.params

/-- Fills what is still missing from a text, if there is one. -/
def absorbText (hints : Hints) (text : Option String) : Option Hints :=
  match text with
  | .none => some hints
  | some text => (Documentation.read text).map hints.absorb

/-- The hints of a callable. Its own documentation comes before that of its initializer. -/
def ofCallable (callable : Callable) : Option Hints := do
  let hints ← none.absorbText callable.doc
  hints.absorbText (if callable.isClass then callable.initializer.bind (·.doc) else .none)

end Hints

end ToolSchema
