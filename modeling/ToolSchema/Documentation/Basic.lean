import ToolSchema.Documentation.Margin

/-!
What documentation says about a callable: a short description, a long one, and entries for its
parameters.
-/

namespace ToolSchema

namespace Documentation

/-- The conventions that documentation may follow. -/
inductive Layout
  | google
  | rest
  | epydoc
  | numpy
  deriving DecidableEq

/-- The layouts in the order in which they are tried. -/
def Layout.all : List Layout := [.google, .rest, .epydoc, .numpy]

def Layout.name : Layout → String
  | .google => "google"
  | .rest => "rest"
  | .epydoc => "epydoc"
  | .numpy => "numpy"

def Layout.ofName? (name : String) : Option Layout :=
  all.find? fun layout => layout.name == name

structure Entry where
  name : String
  type : Option String
  description : Option String
  deriving DecidableEq

end Documentation

structure Documentation where
  layout : Documentation.Layout
  short : Option String
  long : Option String
  params : List Documentation.Entry
  /-- The count of sections and items that the layout recognised. -/
  recognised : Nat
  deriving DecidableEq

namespace Documentation

open Text (trim unlines)

/-- The description of the first entry with the name, unless it is empty. -/
def hint? (doc : Documentation) (name : String) : Option String :=
  match (doc.params.find? fun entry => entry.name == name).bind (·.description) with
  | some "" => none
  | hint => hint

def nonempty? (text : List Char) : Option String :=
  if text.isEmpty then none else some (.ofList text)

/-- The first line of a block is the short description, and what follows is the long one. -/
def describe (block : List (List Char)) : Option String × Option String :=
  let text := trim (unlines block)
  (nonempty? (trim (text.takeWhile (· != '\n'))), nonempty? (trim (text.dropWhile (· != '\n'))))

/-- The description of an item: what stands on its first line, and the lines that continue it. -/
def itemDescription (first : List Char) (rest : List (List Char)) : Option String :=
  let first := trim first
  let rest := dedent rest
  nonempty? (if first.isEmpty then rest else if rest.isEmpty then first
    else first ++ '\n' :: rest)

end Documentation

end ToolSchema
