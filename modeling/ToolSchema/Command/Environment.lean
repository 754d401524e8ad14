import ToolSchema.Command.Failure
import ToolSchema.Command.Invocation
import ToolSchema.Json.Reader

/-!
What a command sees of the world: files, environment variables, and whether it writes to a terminal.
-/

namespace ToolSchema.Command

inductive FileState
  | missing
  | unreadable
  | text (content : String)

structure Environment where
  file : String → FileState
  value? : String → Option String
  isTerminal : Bool

namespace Environment

def fileExists (environment : Environment) (path : String) : Bool :=
  match environment.file path with
  | .missing => false
  | _ => true

def readText (environment : Environment) (path : String) : Except Failure String :=
  match environment.file path with
  | .missing => .error (.missingFile path)
  | .unreadable => .error (.unreadableFile path)
  | .text content => .ok content

/-- The JSON value that a text holds. Every JSON text is a YAML text too. TOML is not read. -/
def readAs (format : FileFormat) (extent : Json.Extent) (content : String) : Option Json :=
  match format with
  | .toml => none
  | .yaml | .json => Json.readExtent extent content

/-- Reads a file that has to hold a value of a certain form. -/
def readFile {α : Type} (environment : Environment) (extent : Json.Extent)
    (read : Json → Option α) (path : String) : Except Failure α := do
  let content ← environment.readText path
  match (readAs (.ofPath path) extent content).bind read with
  | some value => return value
  | none => throw (.malformedFile path "unexpected content")

/-- The directory for configurations, if the variables tell of one. -/
def configurationDirectory (value? : String → Option String) : Option String :=
  match (value? "XDG_CONFIG_HOME").filter (·.startsWith "/") with
  | some directory => some directory
  | none => (value? "HOME").map (· ++ "/.config")

/-- The file that is to hold the configuration, if one is named. -/
def namedConfiguration (value? : String → Option String) (options : GeneralOptions) :
    Option String :=
  options.config.or ((value? "CALLSCHEMA_CONFIG").bind Invocation.path?)

def searchPaths (value? : String → Option String) : List String :=
  Configuration.searchPaths (configurationDirectory value?)

def readConfiguration (environment : Environment) (path : String) :
    Except Failure Configuration :=
  match environment.readFile Configuration.extent Configuration.ofJson? path with
  | .error (.malformedFile path _) => .error (.configuration (.malformed path))
  | result => result

/-- The configuration that counts: the one that is named, or else the first one that is found, or
else the default values. -/
def configuration (environment : Environment) (options : GeneralOptions) :
    Except Failure Configuration :=
  match namedConfiguration environment.value? options with
  | some path => environment.readConfiguration path
  | none =>
    match (searchPaths environment.value?).find? environment.fileExists with
    | some path => environment.readConfiguration path
    | none => .ok .default

def readManifest (environment : Environment) (path : String) : Except Failure Manifest := do
  let file ← environment.readFile .whole ManifestFile.ofJson? path
  (Manifest.resolve file).mapError .ofManifest

/-- The file that holds the arguments of a call, if they are in a file. -/
def argumentsPath? (text : String) : Option String :=
  match text.toList with
  | '@' :: path => some (.ofList path)
  | _ => none

def readArguments (environment : Environment) (text : String) : Except Failure Json :=
  match argumentsPath? text with
  | some path => do
    let content ← environment.readText path
    match Json.read content with
    | some value => return value
    | none => throw (.malformedFile path "not a JSON value")
  | none =>
    match Json.read text with
    | some value => .ok value
    | none => .error .malformedJson

end Environment

/-- The files that the command reads. -/
def Request.paths : Request → List String
  | .project request => [request.manifest]
  | .eval request => request.manifest :: (Environment.argumentsPath? request.arguments).toList
  | .normalize request => request.manifest.toList
  | .showConfiguration _ | .listPaths | .complete _ => []

/-- The files that the invocation may read. -/
def Invocation.paths (invocation : Invocation) (value? : String → Option String) : List String :=
  (Environment.namedConfiguration value? invocation.options).toList ++
    Environment.searchPaths value? ++ invocation.request.paths

end ToolSchema.Command
