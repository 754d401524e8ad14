import ToolSchema.Json.Basic
import ToolSchema.Yaml.Scalar

/-!
JSON values as YAML documents in block style: one member or item a line, with what belongs to it
indented by two spaces below it. Items of a list are not indented under the key of the list. A key
that does not fit on a line stands under a mark of its own.
-/

namespace ToolSchema.Yaml

/-- A value as lines. The first one can follow a key or a mark. -/
inductive Written
  | scalar (lines : List Line)
  /-- The items of a list. -/
  | items (lines : List Line)
  /-- The members of an object. -/
  | members (lines : List Line)

def Written.lines : Written → List Line
  | .scalar lines => lines
  | .items lines => lines
  | .members lines => lines

/-- The first line as it is, and the others moved to the right. -/
def hang : List Line → List Line
  | [] => []
  | first :: more => first :: indent more

/-- Lines behind something on the first line. -/
def following (start : String) : List Line → List Line
  | [] => [.ofString start]
  | first :: more => first.after (start ++ " ") :: more

/-- Lines behind a mark, to the right of it. -/
def marked (mark : String) (lines : List Line) : List Line := following mark (hang lines)

def keyLimit : Nat := 128

/-- The key fits on the line of its value. -/
def isShortKey (key : String) : Bool :=
  decide (key.utf8ByteSize ≤ keyLimit) && !key.toList.any isBreak

/-- A value below a key on a line of its own, or after it. -/
def below (key : String) : Written → List Line
  | .scalar lines => following key (hang lines)
  | .items lines => .ofString key :: lines
  | .members lines => .ofString key :: indent lines

def member (key : String) (value : Written) : List Line :=
  if isShortKey key then
    below (.ofList (((scalarLines key).map (·.text)).flatten ++ [':'])) value
  else marked "?" (scalarLines key) ++ marked ":" value.lines

mutual

def write : Json → Written
  | .null => .scalar [.ofString "null"]
  | .bool true => .scalar [.ofString "true"]
  | .bool false => .scalar [.ofString "false"]
  | .int n => .scalar [.ofString (toString n)]
  | .float x => .scalar [.ofString (renderFloat x)]
  | .str text => .scalar (scalarLines text)
  | .array [] => .scalar [.ofString "[]"]
  | .array items => .items (writeItems items)
  | .object [] => .scalar [.ofString "\x7b\x7d"]
  | .object members => .members (writeMembers members)

def writeItems : List Json → List Line
  | [] => []
  | value :: more => marked "-" (write value).lines ++ writeItems more

def writeMembers : List (String × Json) → List Line
  | [] => []
  | (key, value) :: more => member key (write value) ++ writeMembers more

end

def documentLines : Written → List Line
  | .scalar lines => hang lines
  | .items lines => lines
  | .members lines => lines

def render (value : Json) : String :=
  .ofList ((documentLines (write value)).flatMap fun line => line.text ++ [line.ending])

end ToolSchema.Yaml
