import ToolSchema.Command.Configuration

/-!
What the log shows, and how. The flags for verbosity choose a baseline, the configuration fills in
what the flags leave open, and the environment overrides both.
-/

namespace ToolSchema.Command

/-- How the lines of the log are laid out. -/
inductive LogLayout
  | compact
  | full
  | json
  deriving DecidableEq

/-- A word for a layout, in any mixture of upper and lower case. -/
def LogLayout.parse (text : String) : Except ConfigurationFault LogLayout :=
  match text.toLower with
  | "compact" => .ok .compact
  | "full" => .ok .full
  | "json" => .ok .json
  | other => .error (.unknownLogLayout other)

structure LogSettings where
  /-- Which events are shown, such as `warn`. -/
  filter : String
  layout : LogLayout
  colored : Bool
  threadIds : Bool
  /-- Every event is shown with the place that it comes from. -/
  locations : Bool
  deriving DecidableEq

namespace LogSettings

/-- The baseline for a number of verbosity flags. -/
def baseline : Nat → LogSettings
  | 0 => ⟨"warn", .compact, true, false, false⟩
  | 1 => ⟨"info", .compact, true, false, false⟩
  | 2 => ⟨"debug", .compact, true, false, true⟩
  | _ => ⟨"trace", .full, true, true, true⟩

/-- The variable that overrides the filter. -/
def filterVariable : String := "RUST_LOG"

/-- The variable that overrides the layout. -/
def layoutVariable : String := "CALLSCHEMA_LOG_FORMAT"

/-- The settings from all sources. The level of the configuration counts only without verbosity
flags, its layout only where the baseline is compact, and in quiet mode errors alone are shown. -/
def resolve (verbosity : Nat) (quiet : Bool) (preferences : LogPreferences)
    (environment : String → Option String) : Except ConfigurationFault LogSettings := do
  let base := baseline verbosity
  let level := if verbosity = 0 then preferences.level else none
  let layout ← if base.layout = .compact then LogLayout.parse preferences.format
    else pure base.layout
  let layout ← match environment layoutVariable with
    | some name => LogLayout.parse name
    | none => pure layout
  let filter := ((environment filterVariable).or level).getD base.filter
  return { base with layout, filter := if quiet then "error" else filter }

end LogSettings

end ToolSchema.Command
