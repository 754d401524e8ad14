import ToolSchema.Manifest.Resolution

/-!
How a command can fail. Every kind of failure has an exit code of its own, so that a script can tell
a rejected call apart from a broken manifest.
-/

namespace ToolSchema.Command

/-- What can be wrong with the configuration. -/
inductive ConfigurationFault
  | unknownLogLayout (name : String)
  /-- A file that does not hold a configuration. -/
  | malformed (path : String)
  /-- A fault in words. -/
  | other (message : String)
  deriving DecidableEq

def ConfigurationFault.message : ConfigurationFault → String
  | .unknownLogLayout name =>
    "Unknown log format '" ++ name ++ "' (expected compact, full or json)"
  | .malformed path => path ++ ": not a configuration"
  | .other message => message

inductive Failure
  /-- A file that exists and cannot be read. -/
  | unreadableFile (path : String)
  | core (error : Error)
  | missingFile (path : String)
  /-- A file whose text has not the form that its name promises. -/
  | malformedFile (path message : String)
  | configuration (fault : ConfigurationFault)
  | manifest (fault : ManifestFault)
  | unknownTool (name : String)
  /-- Arguments that the tool does not accept, with what is said about them. -/
  | rejected (feedback : String)
  /-- Arguments on the command line that are not JSON. -/
  | malformedJson
  /-- A failure in words. -/
  | other (message : String)

namespace Failure

def ofManifest : ManifestError → Failure
  | .fault fault => .manifest fault
  | .core error => .core error

def exitCode : Failure → Nat
  | .unreadableFile _ => 1
  | .core _ => 2
  | .missingFile _ => 3
  | .malformedFile _ _ => 4
  | .configuration _ => 5
  | .manifest _ => 6
  | .unknownTool _ => 7
  | .rejected _ => 8
  | .malformedJson => 12
  | .other _ => 99

/-- The failure lies in how the command was called. -/
def asksForHelp : Failure → Bool
  | .unknownTool _ => true
  | _ => false

def message : Failure → String
  | .unreadableFile path => "IO error: " ++ path ++ " cannot be read"
  | .core error => error.message
  | .missingFile path => "File not found: " ++ path
  | .malformedFile path message => "Invalid file format for " ++ path ++ ": " ++ message
  | .configuration fault => "Configuration error: " ++ fault.message
  | .manifest fault => "Manifest error: " ++ fault.message
  | .unknownTool name => "Tool '" ++ name ++ "' is not declared in the manifest"
  | .rejected feedback => "Tool call rejected: " ++ feedback
  | .malformedJson => "JSON error: the arguments are not a JSON value"
  | .other message => message

/-- The messages of the causes, the outermost first. -/
def causes : Failure → List String
  | .core error => error.causes
  | _ => []

end Failure

end ToolSchema.Command
