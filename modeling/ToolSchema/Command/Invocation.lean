import ToolSchema.Command.Configuration
import ToolSchema.Command.Switches

/-!
The commands, and how a command line asks for one. The general options can stand at every level of
the line, and the innermost level counts.
-/

namespace ToolSchema.Command

/-- The declarations of the callables in a manifest. -/
structure ProjectRequest where
  manifest : String
  /-- One callable instead of all functions. -/
  tool : Option String
  flavor : Option Flavor
  withLong : Bool
  /-- The tools for the answers are declared as well. -/
  withResponse : Bool

/-- The evaluation of one call. -/
structure EvalRequest where
  manifest : String
  tool : String
  /-- The arguments as JSON, or a file that holds them after an at sign. -/
  arguments : String

/-- The normal form of one type. -/
structure NormalizeRequest where
  type : String
  concretize : Bool
  manifest : Option String

inductive Shell
  | bash
  | zsh
  | fish
  | powerShell
  | elvish
  deriving DecidableEq

inductive Request
  | project (request : ProjectRequest)
  | eval (request : EvalRequest)
  | normalize (request : NormalizeRequest)
  | showConfiguration (format : FileFormat)
  | listPaths
  | complete (shell : Shell)

structure GeneralOptions where
  verbosity : Nat
  quiet : Bool
  config : Option String
  output : Option Format
  noColor : Bool

structure Invocation where
  options : GeneralOptions
  request : Request

namespace Invocation

def verbose : Switch := ⟨"verbose", some 'v', false⟩
def quiet : Switch := ⟨"quiet", some 'q', false⟩
def config : Switch := ⟨"config", some 'c', true⟩
def output : Switch := ⟨"output", some 'o', true⟩
def noColor : Switch := ⟨"no-color", none, false⟩
def tool : Switch := ⟨"tool", some 't', true⟩
def flavor : Switch := ⟨"flavor", some 'f', true⟩
def longDescription : Switch := ⟨"long-description", none, false⟩
def response : Switch := ⟨"response", none, false⟩
def arguments : Switch := ⟨"args", some 'a', true⟩
def concretize : Switch := ⟨"concretize", none, false⟩
def manifest : Switch := ⟨"manifest", some 'm', true⟩
def format : Switch := ⟨"format", some 'f', true⟩

def general : List Switch := [verbose, quiet, config, output, noColor]

def path? (text : String) : Option String := if text.isEmpty then none else some text

/-- A value that is one of several words. -/
def oneOf? {α : Type} (choices : List (String × α)) (text : String) : Option α :=
  Entries.get? choices text

def fileFormats : List (String × FileFormat) :=
  [("toml", .toml), ("json", .json), ("yaml", .yaml)]

def shells : List (String × Shell) :=
  [("bash", .bash), ("zsh", .zsh), ("fish", .fish), ("power-shell", .powerShell),
    ("elvish", .elvish)]

/-- The greatest number of verbosity flags that is told apart. -/
def maxVerbosity : Nat := 255

/-- The general options at one level, where quiet and verbose exclude each other. -/
def generalOptions? (spoken : Spoken) : Option GeneralOptions := do
  let verbosity := min (spoken.count verbose) maxVerbosity
  let isQuiet ← spoken.flag? quiet
  if isQuiet && verbosity != 0 then none
  return ⟨verbosity, isQuiet, ← spoken.value? config path?,
    ← spoken.value? output (oneOf? Format.choices), ← spoken.flag? noColor⟩

/-- The options of a level, with those of the level around it where it is silent. -/
def within (outer inner : GeneralOptions) : GeneralOptions where
  verbosity := if inner.verbosity = 0 then outer.verbosity else inner.verbosity
  quiet := inner.quiet || outer.quiet
  config := inner.config.or outer.config
  output := inner.output.or outer.output
  noColor := inner.noColor || outer.noColor

/-- Listens to the last level of a command line, whose options are given. -/
def lastLevel (switches : List Switch) (read : Spoken → Option Request) (words : List String) :
    Option Invocation := do
  let spoken ← listen (general ++ switches) [] words
  return ⟨← generalOptions? spoken, ← read spoken⟩

/-- Listens to a level that does nothing but name a subcommand. -/
def innerLevel (subcommands : List (String × (List String → Option Invocation)))
    (words : List String) : Option Invocation := do
  let spoken ← listen general (subcommands.map (·.1)) words
  if !spoken.words.isEmpty then none
  let (name, rest) ← spoken.subcommand
  let outer ← generalOptions? spoken
  let inner ← (← Entries.get? subcommands name) rest
  return { inner with options := within outer inner.options }

def project? (spoken : Spoken) : Option Request := do
  let [path] := spoken.words | none
  let tool ← spoken.value? tool some
  let withResponse ← spoken.flag? response
  if withResponse && tool.isNone then none
  return .project ⟨← path? path, tool, ← spoken.value? flavor (oneOf? Flavor.choices),
    ← spoken.flag? longDescription, withResponse⟩

def eval? (spoken : Spoken) : Option Request := do
  let [path] := spoken.words | none
  return .eval ⟨← path? path, ← (← spoken.value? tool some), ← (← spoken.value? arguments some)⟩

def normalize? (spoken : Spoken) : Option Request := do
  let [type] := spoken.words | none
  return .normalize ⟨type, ← spoken.flag? concretize, ← spoken.value? manifest path?⟩

def showConfiguration? (spoken : Spoken) : Option Request := do
  let [] := spoken.words | none
  return .showConfiguration ((← spoken.value? format (oneOf? fileFormats)).getD .toml)

def listPaths? (spoken : Spoken) : Option Request := do
  let [] := spoken.words | none
  return .listPaths

def complete? (spoken : Spoken) : Option Request := do
  let [shell] := spoken.words | none
  return .complete (← oneOf? shells shell)

def configCommands : List (String × (List String → Option Invocation)) :=
  [("show", lastLevel [format] showConfiguration?), ("paths", lastLevel [] listPaths?)]

def commands : List (String × (List String → Option Invocation)) :=
  [("project", lastLevel [tool, flavor, longDescription, response] project?),
    ("eval", lastLevel [tool, arguments] eval?),
    ("normalize", lastLevel [concretize, manifest] normalize?),
    ("config", innerLevel configCommands),
    ("completions", lastLevel [] complete?)]

/-- The invocation that a command line asks for. There is none if the line is not well formed, or
asks for help. -/
def parse (words : List String) : Option Invocation := innerLevel commands words

end Invocation

end ToolSchema.Command
