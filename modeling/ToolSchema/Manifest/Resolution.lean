import ToolSchema.Callable.Catalog
import ToolSchema.Manifest.Basic
import ToolSchema.Manifest.Defaults
import ToolSchema.Manifest.References
import ToolSchema.Schema.Error

/-!
Resolution of manifests: every type text is read, and every function and record class becomes a
declaration. Names may be used before they are declared, but not in a cycle.
-/

namespace ToolSchema

/-- What can be inconsistent in a manifest. -/
inductive ManifestFault
  | invalidName (name : String)
  | shadowsBuiltin (name : String)
  | declaredTwice (name : String)
  /-- The names on the cycle, with the first one again at the end. -/
  | cycle (names : List String)
  /-- A fault in words. -/
  | other (message : String)
  deriving DecidableEq

def ManifestFault.message : ManifestFault → String
  | .invalidName name => "'" ++ name ++ "' is not a valid type name"
  | .shadowsBuiltin name => "'" ++ name ++ "' shadows a built-in type"
  | .declaredTwice name => "'" ++ name ++ "' is declared twice"
  | .cycle names => "cyclic type reference: " ++ " -> ".intercalate names
  | .other message => message

inductive ManifestError
  | fault (fault : ManifestFault)
  | core (error : Error)

/-- A manifest in which everything is declared. -/
structure Manifest where
  /-- The meaning of names in types. -/
  names : Entries TypeExpr
  catalog : Catalog
  /-- The functions and record classes by name. -/
  callables : Entries ClassRef
  /-- The names of the functions, in order. -/
  functions : List String

namespace Manifest

/-- A name for a type before it is resolved. -/
inductive Named
  | alias (text : String)
  | type (decl : TypeDecl)

/-- The type texts of a declaration, in order. -/
def Named.texts : Named → List String
  | .alias text => [text]
  | .type decl => decl.fields.filterMap (·.type)

/-- Words that open a form of their own. -/
def formNames : List String := ["Literal", "Annotated", "Optional", "Union"]

/-- The name has a meaning without any declaration. -/
def isBuiltin (name : String) : Bool :=
  Catalog.builtinNames.hasKey name || formNames.contains name ||
    (TypeExpr.parse TypeExpr.noNames name).isOk

def declare (declared : Entries Named) (name : String) (named : Named) :
    Except ManifestFault (Entries Named) :=
  if !isIdentifier name then .error (.invalidName name)
  else if isBuiltin name then .error (.shadowsBuiltin name)
  else if declared.hasKey name then .error (.declaredTwice name)
  else .ok (declared ++ [(name, named)])

/-- All names of a manifest, aliases before record classes. -/
def declaredNames (file : ManifestFile) : Except ManifestFault (Entries Named) := do
  let aliases ← file.aliases.foldlM (fun declared (name, text) =>
    declare declared name (.alias text)) []
  file.types.foldlM (fun declared decl => declare declared decl.name (.type decl)) aliases

/-- The declared names that each name refers to. -/
def graphOf (declared : Entries Named) : Graph :=
  declared.map fun (name, named) => (name, named.texts.flatMap (references declared.keys))

def lookup (names : Entries TypeExpr) : TypeExpr.Names := fun name => names.get? name

def parseIn (names : Entries TypeExpr) (text : String) : Except Error TypeExpr :=
  (TypeExpr.parse (lookup names) text).mapError .type

def parseOption (names : Entries TypeExpr) : Option String → Except Error (Option TypeExpr)
  | none => .ok none
  | some text => (parseIn names text).map some

def paramOf (names : Entries TypeExpr) (decl : ParamDecl) : Except Error Parameter := do
  return ⟨decl.name, decl.passing, ← parseOption names decl.type, decl.default.isSome⟩

/-- The field of the record that a parameter becomes. -/
def fieldOf (decl : ParamDecl) : RecordField :=
  ⟨decl.name, decl.passing == .positionalOnly, decl.default.map Value.ofJson⟩

/-- The declaration of a function or class with given parameters, which builds records. -/
def build (names : Entries TypeExpr) (start : Declaration) (doc : Option String)
    (params : List ParamDecl) (returns : Option String) : Except Error Callable := do
  let parameters ← params.mapM (paramOf names)
  let declaration := parameters.foldl Declaration.withParam { start with doc := doc }
  let declaration ← match ← parseOption names returns with
    | some type => pure (declaration.withReturns type)
    | none => pure declaration
  let construct := Constructor.recordWithDefaults start.name (params.map fieldOf)
  ({ declaration with construct := some construct }).build.mapError .declaration

/-- Adds a declaration to the catalog and gives the reference to it. -/
def register (manifest : Manifest) (callable : Callable) : Manifest × ClassRef :=
  let ref : ClassRef := ⟨callable.name, manifest.catalog.length⟩
  ({ manifest with
      catalog := callable :: manifest.catalog
      callables := manifest.callables.insert callable.name ref }, ref)

def addNamed (manifest : Manifest) (name : String) : Named → Except Error Manifest
  | .alias text => do
    let target ← parseIn manifest.names text
    return { manifest with names := manifest.names.insert name (.alias name target) }
  | .type decl => do
    let callable ← build manifest.names (.classDef decl.name none) decl.doc decl.fields none
    let (manifest, ref) := manifest.register callable
    return { manifest with names := manifest.names.insert name (.classRef ref) }

def addFunction (manifest : Manifest) (decl : FunctionDecl) : Except ManifestError Manifest := do
  if manifest.callables.hasKey decl.name then throw (.fault (.declaredTwice decl.name))
  let callable ← (build manifest.names (.function decl.name) decl.doc decl.params
    decl.returns).mapError .core
  let (manifest, _) := manifest.register callable
  return { manifest with functions := manifest.functions ++ [decl.name] }

def empty : Manifest := ⟨Catalog.builtinNames, Catalog.builtin, [], []⟩

/-- Resolves the names in an order in which each one comes after those that it refers to. -/
def addNames (declared : Entries Named) (manifest : Manifest) (order : List String) :
    Except Error Manifest :=
  order.foldlM (fun manifest name =>
    match declared.get? name with
    | some named => manifest.addNamed name named
    | none => .ok manifest) manifest

/-- Resolves a manifest: first its names, in the order of their references, and then its functions
as they come. -/
def resolve (file : ManifestFile) : Except ManifestError Manifest := do
  let declared ← (declaredNames file).mapError .fault
  let order ← (resolutionOrder (graphOf declared)).mapError fun names => .fault (.cycle names)
  let manifest ← (addNames declared empty order).mapError .core
  file.functions.foldlM addFunction manifest

def callable? (manifest : Manifest) (name : String) : Option Callable := do
  let ref ← manifest.callables.get? name
  manifest.catalog.get? ref.index

/-- Reads a type that may use the names of the manifest. -/
def parse (manifest : Manifest) (text : String) : Except Error TypeExpr :=
  parseIn manifest.names text

end Manifest

/-- Reads a type that may use the built-in classes only. -/
def TypeExpr.parseBuiltin (text : String) : Except Error TypeExpr :=
  Manifest.parseIn Catalog.builtinNames text

end ToolSchema
