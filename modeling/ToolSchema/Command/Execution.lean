import ToolSchema.Command.Environment
import ToolSchema.Command.Logging
import ToolSchema.Tool.Toolbox

/-!
Execution of commands. What a command has written stays written when it fails later on.
-/

namespace ToolSchema.Command

/-- What goes to the error stream. -/
inductive Notice
  | loggingDisabled (fault : ConfigurationFault)
  | failure (cause : Failure) (colored : Bool)
  | helpHint

def Notice.text : Notice → String
  | .loggingDisabled fault =>
    "Logging disabled: " ++ (Failure.configuration fault).message ++ "\n"
  | .failure cause colored => cause.render colored ++ "\n"
  | .helpHint => "\nFor more information, try '--help'\n"

structure Result where
  output : String
  notices : List Notice
  failure : Option Failure

def Result.exitCode (result : Result) : Nat :=
  match result.failure with
  | none => 0
  | some failure => failure.exitCode

/-- Work that writes text and can fail. -/
abbrev Work := ExceptT Failure (StateM String)

namespace Work

def write (text : String) : Work Unit := modify (· ++ text)

def ofCore {α : Type} (result : Except Error α) : Work α := ofExcept (result.mapError .core)

/-- The result of the work together with all that was written. -/
def finish {α : Type} (work : Work α) : Except Failure α × String := StateT.run work.run ""

end Work

open Work

def findCallable (manifest : Manifest) (name : String) : Except Failure Callable :=
  match manifest.callable? name with
  | some callable => .ok callable
  | none => .error (.unknownTool name)

/-- The callables that a request is about: the one that it names, or all functions. -/
def selectCallables (manifest : Manifest) (tool : Option String) :
    Except Failure (List Callable) :=
  match tool with
  | some name => do return [← findCallable manifest name]
  | none => .ok (manifest.functions.filterMap manifest.callable?)

def addCallable (manifest : Manifest) (toolbox : Toolbox) (callable : Callable) :
    Except Error Toolbox := do
  toolbox.add (← Extractor.standard.extract manifest.catalog callable)

/-- The declaration of the tool for the answers of a callable. Where no tool is needed, a warning
says so. -/
def declareResponse (style : Style) (flavor : Flavor) (withLong : Bool) (manifest : Manifest)
    (callable : Callable) : Work (List ToolDocument) := do
  match ← ofCore (Response.ofCallable Extractor.standard manifest.catalog callable) with
  | some schema =>
    return [← ofCore ((schema.describe flavor withLong).mapError .unsupported)]
  | none =>
    write (style.warning (callable.name ++ " returns plain text; no response tool is needed"))
    return []

def project (environment : Environment) (config : Configuration) (style : Style)
    (request : ProjectRequest) : Work Unit := do
  let manifest ← ofExcept (environment.readManifest request.manifest)
  let flavor := request.flavor.getD config.projection.flavor
  let withLong := request.withLong || config.projection.withLong
  let callables ← ofExcept (selectCallables manifest request.tool)
  if callables.isEmpty then write (style.warning "The manifest declares no functions")
  let toolbox ← ofCore (callables.foldlM (addCallable manifest) Toolbox.empty)
  let tools ← ofCore (toolbox.describe flavor withLong)
  let responses ← if request.withResponse then
      callables.mapM (declareResponse style flavor withLong manifest)
    else pure []
  write (style.title "Tool declarations")
  write (style.declarations (tools ++ responses.flatten))

/-- Evaluates a call. A call that is not accepted shows what a model would be told. -/
def eval (environment : Environment) (style : Style) (request : EvalRequest) : Work Unit := do
  let manifest ← ofExcept (environment.readManifest request.manifest)
  let callable ← ofExcept (findCallable manifest request.tool)
  let arguments ← ofExcept (environment.readArguments request.arguments)
  let toolbox ← ofCore (addCallable manifest .empty callable)
  match ← ofCore (toolbox.invoke request.tool arguments) with
  | .completed value | .final value =>
    write (style.success (request.tool ++ " accepted the call"))
    write (style.data value.toJson)
  | .rejected rejection =>
    write (style.rejection rejection.report)
    throw (.rejected rejection.report.text)

/-- The normal form of a type as it is printed, and the normal form of what an optional type is
besides absent. -/
structure NormalForm where
  text : String
  inner : Option String
  deriving DecidableEq

def NormalForm.of (concretize : Bool) (type : TypeExpr) : NormalForm :=
  let normal := type.normalize concretize
  ⟨normal.text, normal.unpackOptional.map TypeExpr.text⟩

def NormalForm.toJson (form : NormalForm) (input : String) : Json :=
  .object ([("input", .str input), ("normalized", .str form.text)] ++
    match form.inner with
    | some inner => [("optional_of", .str inner)]
    | none => [])

/-- The normal form in a manner of writing. Human readers do not get their input back. -/
def NormalForm.render (form : NormalForm) (style : Style) (input : String) : String :=
  if style.isHuman then
    Style.line form.text ++
      match form.inner with
      | some inner => Style.line ("optional of: " ++ inner)
      | none => ""
  else style.data (form.toJson input)

/-- The normal form of the type that a request names. -/
def findNormalForm (environment : Environment) (request : NormalizeRequest) :
    Except Failure NormalForm := do
  let type ← match request.manifest with
    | some path => do
      let manifest ← environment.readManifest path
      (manifest.parse request.type).mapError .core
    | none => (TypeExpr.parseBuiltin request.type).mapError .core
  return .of request.concretize type

def normalize (environment : Environment) (style : Style) (request : NormalizeRequest) :
    Work Unit := do
  let form ← ofExcept (findNormalForm environment request)
  write (form.render style request.type)

/-- The paths where a configuration is looked for, with a mark at those that exist. -/
def listPaths (environment : Environment) : String :=
  String.join ((Environment.searchPaths environment.value?).map fun path =>
    (if environment.fileExists path then "* " else "  ") ++ path ++ "\n")

/-- A script by which a shell completes the names of the commands. -/
def completionScript (shell : Shell) : String :=
  let names := " ".intercalate (Invocation.commands.map (·.1))
  match shell with
  | .bash => "complete -W '" ++ names ++ "' callschema\n"
  | .zsh => "compctl -k '(" ++ names ++ ")' callschema\n"
  | .fish => "complete -c callschema -f -a '" ++ names ++ "'\n"
  | .powerShell =>
    "Register-ArgumentCompleter -Native -CommandName callschema -ScriptBlock \x7b -split '" ++
      names ++ "' \x7d\n"
  | .elvish => "set edit:completion:arg-completer[callschema] = \x7b|@words| put " ++ names ++
      " \x7d\n"

def perform (environment : Environment) (config : Configuration) (style : Style) :
    Request → Work Unit
  | .project request => project environment config style request
  | .eval request => eval environment style request
  | .normalize request => normalize environment style request
  | .showConfiguration format => write (config.render format)
  | .listPaths => write (listPaths environment)
  | .complete shell => write (completionScript shell)

def failureNotices (colored : Bool) (failure : Failure) : List Notice :=
  .failure failure colored :: if failure.asksForHelp then [.helpHint] else []

/-- What is said about logging, which goes on only if its settings make sense. -/
def loggingNotices (environment : Environment) (options : GeneralOptions)
    (config : Configuration) : List Notice :=
  let verbosity := if options.quiet then 0 else options.verbosity
  match LogSettings.resolve verbosity options.quiet config.logging environment.value? with
  | .ok _ => []
  | .error fault => [.loggingDisabled fault]

def Invocation.execute (invocation : Invocation) (environment : Environment) : Result :=
  let options := invocation.options
  let colored := !options.noColor && environment.isTerminal
  match environment.configuration options with
  | .error failure => ⟨"", failureNotices colored failure, some failure⟩
  | .ok config =>
    let notices := loggingNotices environment options config
    let colored := colored && config.output.color
    let style : Style := ⟨options.output.getD config.output.format, colored, options.quiet⟩
    match (perform environment config style invocation.request).finish with
    | (.ok (), output) => ⟨output, notices, none⟩
    | (.error failure, output) =>
      ⟨output, notices ++ failureNotices colored failure, some failure⟩

end ToolSchema.Command
