import ToolSchema.Command.Failure
import ToolSchema.Json.Writer
import ToolSchema.Schema.Document
import ToolSchema.Yaml.Writer

/-!
How results are written. The formats for other programs hold nothing but data. The format for human
readers has titles and status lines as well, and lays out declarations and rejections for reading.
-/

namespace ToolSchema

mutual

/-- The report as data. An empty list of causes is left out. -/
def Report.toJson : Report → Json
  | .mk path message causes =>
    .object ([("path", .str path), ("message", .str message)] ++
      match causes with
      | [] => []
      | cause :: more => [("causes", .array (Report.toJson cause :: Report.toJsonAll more))])

def Report.toJsonAll : List Report → List Json
  | [] => []
  | report :: more => Report.toJson report :: Report.toJsonAll more

end

mutual

/-- The report as a tree with one line for each rejection, at a given depth. -/
def Report.tree (depth : Nat) : Report → String
  | .mk path message causes =>
    (if depth = 0 then "Rejected at " else "".pushn ' ' (2 * depth) ++ "- ") ++ path ++ ": " ++
      message ++ "\n" ++ Report.trees (depth + 1) causes

def Report.trees (depth : Nat) : List Report → String
  | [] => ""
  | report :: more => Report.tree depth report ++ Report.trees depth more

end

namespace Command

/-! Colored text for terminals. A text is colored by a code before it, and a reset after it. -/

inductive Color
  | green
  | yellow
  | brightBlue
  | red
  | boldRed
  deriving DecidableEq

namespace Color

def code : Color → String
  | .green => "\x1b[32m"
  | .yellow => "\x1b[33m"
  | .brightBlue => "\x1b[94m"
  | .red => "\x1b[31m"
  | .boldRed => "\x1b[1;31m"

def reset : String := "\x1b[0m"

/-- The text in a color. The color comes back after each reset inside of the text. -/
def paint (color : Color) (text : String) : String :=
  color.code ++ (reset ++ color.code).intercalate (text.splitOn reset) ++ reset

/-- The text in a color, if colors are on. -/
def paintIf (colored : Bool) (color : Color) (text : String) : String :=
  if colored then color.paint text else text

end Color

/-! Formats -/

inductive Format
  | human
  | json
  | yaml
  | jsonPretty
  deriving DecidableEq

namespace Format

def name : Format → String
  | .human => "human"
  | .json => "json"
  | .yaml => "yaml"
  | .jsonPretty => "json-pretty"

def all : List Format := [.human, .json, .yaml, .jsonPretty]

def render : Format → Json → String
  | .json, value => value.render
  | .yaml, value => Yaml.render value
  | .human, value | .jsonPretty, value => value.renderPretty

def renderReport : Format → Report → String
  | .human, report => report.tree 0
  | format, report => format.render report.toJson

/-- A declaration with its name and flavor as a title. -/
def declarationBlock (tool : ToolDocument) : String :=
  "── " ++ tool.name ++ " (" ++ tool.flavor.name ++ ") ──\n" ++ tool.toJson.renderPretty ++ "\n"

def renderDeclarations : Format → List ToolDocument → String
  | .human, tools => "\n".intercalate (tools.map declarationBlock)
  | format, tools => format.render (.array (tools.map ToolDocument.toJson))

end Format

/-- The manner in which results are written. -/
structure Style where
  format : Format
  colored : Bool
  /-- Results and warnings only. -/
  quiet : Bool

namespace Style

def isHuman (style : Style) : Bool := style.format == .human

def line (text : String) : String := text ++ "\n"

/-- A text that ends with exactly one line break. -/
def block (text : String) : String :=
  line (.ofList (text.toList.reverse.dropWhile (· == '\n')).reverse)

/-- A status line that says what went well. -/
def success (style : Style) (message : String) : String :=
  if style.isHuman && !style.quiet then line (Color.paintIf style.colored .green message) else ""

/-- A warning, which is shown in quiet mode too. -/
def warning (style : Style) (message : String) : String :=
  if !style.isHuman then ""
  else if style.colored then line (Color.paint .yellow message)
  else line ("WARNING: " ++ message)

def title (style : Style) (text : String) : String :=
  if !style.isHuman || style.quiet then ""
  else if style.colored then line (Color.paint .brightBlue ("\n═══ " ++ text ++ " ═══"))
  else line ("\n=== " ++ text ++ " ===")

def data (style : Style) (value : Json) : String := block (style.format.render value)

def declarations (style : Style) (tools : List ToolDocument) : String :=
  block (style.format.renderDeclarations tools)

/-- The report on arguments that were not accepted. -/
def rejection (style : Style) (report : Report) : String :=
  let text := style.format.renderReport report
  if style.isHuman && style.colored then Color.paint .red text else block text

end Style

/-- A failure for the error stream, with its causes below it. -/
def Failure.render (colored : Bool) (failure : Failure) : String :=
  Color.paintIf colored .boldRed "Error:" ++ " " ++ failure.message ++
    String.join (failure.causes.map ("\n  caused by: " ++ ·))

end Command

end ToolSchema
