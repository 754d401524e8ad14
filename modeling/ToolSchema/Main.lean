import ToolSchema.Command.Execution

/-!
The program: it reads the files that the command line speaks of, executes the command, and writes
what came of it.
-/

namespace ToolSchema.Program

open Command

/-- What is found at a path of the file system. -/
def readState (path : String) : IO FileState := do
  try
    return .text (← IO.FS.readFile path)
  catch error =>
    match error with
    | .noFileOrDirectory .. => return .missing
    | _ => return .unreadable

/-- The variables that a command can ask for. -/
def variableNames : List String :=
  ["CALLSCHEMA_CONFIG", "XDG_CONFIG_HOME", "HOME", LogSettings.filterVariable,
    LogSettings.layoutVariable]

def readVariables : IO (Entries String) :=
  variableNames.filterMapM fun name => do
    return (← IO.getEnv name).map (name, ·)

/-- The environment of a command. Only the given paths are looked at. -/
def readEnvironment (known : Entries String) (paths : List String) : IO Environment := do
  let files : Entries FileState ← paths.mapM fun path => do return (path, ← readState path)
  let isTerminal ← (← IO.getStdout).isTty
  return ⟨fun path => (files.get? path).getD .missing, fun name => known.get? name, isTerminal⟩

def usage : String :=
  "Usage: callschema [OPTIONS] <" ++ "|".intercalate (Invocation.commands.map (·.1)) ++
    "> [ARGUMENTS]\n"

/-- The exit code of a command line that asks for no command. -/
def usageExitCode : UInt32 := 2

/-- Executes a command line and gives the exit code. -/
def run (words : List String) : IO UInt32 := do
  match Invocation.parse words with
  | none =>
    IO.eprint usage
    return usageExitCode
  | some invocation =>
    let known ← readVariables
    let environment ← readEnvironment known (invocation.paths fun name => known.get? name)
    let result := invocation.execute environment
    IO.print result.output
    for notice in result.notices do
      IO.eprint notice.text
    return result.exitCode.toUInt32

end ToolSchema.Program

def main (words : List String) : IO UInt32 := ToolSchema.Program.run words
