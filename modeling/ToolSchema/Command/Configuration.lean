import ToolSchema.Command.Output
import ToolSchema.Json.Reader
import ToolSchema.Json.Record
import ToolSchema.Toml.Text

/-!
The settings that a configuration file can hold. What the file leaves out has a default value, and
what it says beyond that is passed over.
-/

namespace ToolSchema

def Flavor.choices : List (String × Flavor) :=
  [Flavor.openai, Flavor.anthropic].map fun flavor => (flavor.name, flavor)

namespace Command

def Format.choices : List (String × Format) := Format.all.map fun format => (format.name, format)

/-- How tools are declared. -/
structure ProjectionSettings where
  flavor : Flavor
  withLong : Bool

/-- How results are written, unless the command line says otherwise. -/
structure OutputSettings where
  format : Format
  color : Bool

/-- What the log shows. -/
structure LogPreferences where
  level : Option String
  format : String

structure Configuration where
  projection : ProjectionSettings
  output : OutputSettings
  logging : LogPreferences

open Json (fields? text? optionalText? withDefault? bool? choice?)

namespace ProjectionSettings

def default : ProjectionSettings := ⟨.openai, false⟩

def fieldNames : List String := ["flavor", "include_long_description"]

def ofJson? (value : Json) : Option ProjectionSettings := do
  let [flavor, withLong] ← fields? .ignored fieldNames value | none
  return ⟨← withDefault? default.flavor (choice? Flavor.choices) flavor,
    ← withDefault? default.withLong bool? withLong⟩

end ProjectionSettings

namespace OutputSettings

def default : OutputSettings := ⟨.human, true⟩

def fieldNames : List String := ["format", "color"]

def ofJson? (value : Json) : Option OutputSettings := do
  let [format, color] ← fields? .ignored fieldNames value | none
  return ⟨← withDefault? default.format (choice? Format.choices) format,
    ← withDefault? default.color bool? color⟩

end OutputSettings

namespace LogPreferences

def default : LogPreferences := ⟨none, "compact"⟩

def fieldNames : List String := ["level", "format"]

def ofJson? (value : Json) : Option LogPreferences := do
  let [level, format] ← fields? .ignored fieldNames value | none
  return ⟨← optionalText? level, ← withDefault? default.format Json.str? format⟩

end LogPreferences

/-- The formats of files that can hold a configuration. -/
inductive FileFormat
  | toml
  | yaml
  | json
  deriving DecidableEq

def fileName (path : String) : String := (path.splitOn "/").getLastD ""

/-- The format that the name of a file promises. A dot at the start of the name opens no ending. -/
def FileFormat.ofPath (path : String) : FileFormat :=
  match (fileName path).splitOn "." with
  | [] | [_] | ["", _] => .json
  | parts =>
    match parts.getLastD "" with
    | "toml" => .toml
    | "yaml" | "yml" => .yaml
    | _ => .json

namespace Configuration

def default : Configuration := ⟨.default, .default, .default⟩

/-- The names of the sections, with the names of their fields. -/
def sectionFields : List (String × List String) :=
  [("projection", ProjectionSettings.fieldNames), ("output", OutputSettings.fieldNames),
    ("logging", LogPreferences.fieldNames)]

def extent : Json.Extent :=
  .record (sectionFields.map fun (name, fields) => (name, .record (fields.map (·, .whole))))

def ofJson? (value : Json) : Option Configuration := do
  let [projection, output, logging] ← fields? .ignored (sectionFields.map (·.1)) value | none
  return ⟨← withDefault? .default ProjectionSettings.ofJson? projection,
    ← withDefault? .default OutputSettings.ofJson? output,
    ← withDefault? .default LogPreferences.ofJson? logging⟩

/-- The settings by section. -/
def sections (config : Configuration) : List (String × List (String × Json)) :=
  [("projection", [("flavor", .str config.projection.flavor.name),
      ("include_long_description", .bool config.projection.withLong)]),
    ("output", [("format", .str config.output.format.name), ("color", .bool config.output.color)]),
    ("logging", [("level", match config.logging.level with
        | some level => .str level
        | none => .null), ("format", .str config.logging.format)])]

def toJson (config : Configuration) : Json :=
  .object (config.sections.map fun section_ => (section_.1, .object section_.2))

/-- One setting in TOML, which has no word for a missing value. -/
def tomlLine : String × Json → Option String
  | (key, .str text) => some (key ++ " = " ++ Toml.quote text ++ "\n")
  | (key, .bool b) => some (key ++ " = " ++ (if b then "true" else "false") ++ "\n")
  | _ => none

def toToml (config : Configuration) : String :=
  "\n".intercalate (config.sections.map fun section_ =>
    "[" ++ section_.1 ++ "]\n" ++ String.join (section_.2.filterMap tomlLine))

def render (config : Configuration) : FileFormat → String
  | .toml => config.toToml
  | .yaml => Yaml.render config.toJson
  | .json => config.toJson.renderPretty ++ "\n"

/-- The files that can hold the configuration: those in the working directory, and those in the
directory for configurations. The first one that exists counts. -/
def searchPaths (directory : Option String) : List String :=
  let endings := ["toml", "yaml", "json"]
  endings.map (".callschema." ++ ·) ++
    match directory with
    | some directory => endings.map (directory ++ "/callschema/config." ++ ·)
    | none => []

end Configuration

end Command

end ToolSchema
