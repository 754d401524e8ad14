import ToolSchema.Callable.Basic
import ToolSchema.Json.Record

/-!
Manifests as they are written: names for types, record classes and functions, all with types in text
form.
-/

namespace ToolSchema

/-- A parameter of a function, or a field of a record class. -/
structure ParamDecl where
  name : String
  type : Option String
  /-- The default value. A null is a default too. -/
  default : Option Json
  passing : Passing

/-- A record class. -/
structure TypeDecl where
  name : String
  doc : Option String
  fields : List ParamDecl

structure FunctionDecl where
  name : String
  doc : Option String
  params : List ParamDecl
  returns : Option String

structure ManifestFile where
  /-- The names for types, with what they stand for. -/
  aliases : Entries String
  types : List TypeDecl
  functions : List FunctionDecl

def Passing.choices : List (String × Passing) :=
  [("positional_only", .positionalOnly), ("positional_or_keyword", .positionalOrKeyword),
    ("keyword_only", .keywordOnly)]

open Json (fields? text? optionalText? withDefault? list? choice?)

def ParamDecl.ofJson? (value : Json) : Option ParamDecl := do
  let [name, type, default, passing] ← fields? .refused ["name", "type", "default", "kind"] value
    | none
  return ⟨← text? name, ← optionalText? type, default.map Json.dedup,
    ← withDefault? .positionalOrKeyword (choice? Passing.choices) passing⟩

def TypeDecl.ofJson? (value : Json) : Option TypeDecl := do
  let [name, doc, fields] ← fields? .refused ["name", "doc", "fields"] value | none
  return ⟨← text? name, ← optionalText? doc, ← withDefault? [] (list? ParamDecl.ofJson?) fields⟩

def FunctionDecl.ofJson? (value : Json) : Option FunctionDecl := do
  let [name, doc, params, returns] ← fields? .refused ["name", "doc", "params", "returns"] value
    | none
  return ⟨← text? name, ← optionalText? doc, ← withDefault? [] (list? ParamDecl.ofJson?) params,
    ← optionalText? returns⟩

/-- The aliases of a manifest: of two with the same name the later one counts. -/
def ManifestFile.aliases? : Json → Option (Entries String)
  | .object members =>
    (members.mapM fun (member : String × Json) =>
      member.2.str?.map (member.1, ·)).map Entries.ofPairs
  | _ => none

def ManifestFile.ofJson? (value : Json) : Option ManifestFile := do
  let [aliases, types, functions] ← fields? .refused ["aliases", "types", "functions"] value
    | none
  return ⟨← withDefault? [] ManifestFile.aliases? aliases,
    ← withDefault? [] (list? TypeDecl.ofJson?) types,
    ← withDefault? [] (list? FunctionDecl.ofJson?) functions⟩

end ToolSchema
