import ToolSchema.Json.Basic
import ToolSchema.Number.Layout

/-!
JSON documents as text: on one line without spaces, or indented by two spaces a level.
-/

namespace ToolSchema.Json

/-- One character of a string. Quotes, backslashes and control characters are escaped, and
everything else stands as it is. -/
def escape (c : Char) : List Char :=
  match c with
  | '"' => ['\\', '"']
  | '\\' => ['\\', '\\']
  | '\x08' => ['\\', 'b']
  | '\x0c' => ['\\', 'f']
  | '\n' => ['\\', 'n']
  | '\r' => ['\\', 'r']
  | '\t' => ['\\', 't']
  | _ =>
    if c.toNat < 0x20 then
      ['\\', 'u', '0', '0', (Nat.digitChar (c.toNat / 16)), (Nat.digitChar (c.toNat % 16))]
    else [c]

def renderString (text : String) : String :=
  .ofList ('"' :: text.toList.flatMap escape ++ ['"'])

/-- A number that is not finite has no JSON text of its own. -/
def renderFloat (x : Binary64) : String :=
  if x.isFinite then NumberLayout.json.render x else "null"

mutual

def render : Json → String
  | .null => "null"
  | .bool true => "true"
  | .bool false => "false"
  | .int n => toString n
  | .float x => renderFloat x
  | .str text => renderString text
  | .array items => "[" ++ ",".intercalate (renderItems items) ++ "]"
  | .object members => "\x7b" ++ ",".intercalate (renderMembers members) ++ "\x7d"

def renderItems : List Json → List String
  | [] => []
  | item :: more => render item :: renderItems more

def renderMembers : List (String × Json) → List String
  | [] => []
  | (key, value) :: more => (renderString key ++ ":" ++ render value) :: renderMembers more

end

/-- The lines of a bracketed list, or the two brackets alone when it is empty. -/
def block (indent : Nat) (opening closing : String) (entries : List String) : String :=
  let margin := "\n" ++ "".pushn ' ' (2 * indent)
  if entries.isEmpty then opening ++ closing
  else opening ++ margin ++ "  " ++ (("," ++ margin ++ "  ").intercalate entries) ++ margin ++
    closing

mutual

/-- The document over several lines, at a given depth of indentation. -/
def renderIndented (indent : Nat) : Json → String
  | .array items => block indent "[" "]" (renderItemsIndented (indent + 1) items)
  | .object members => block indent "\x7b" "\x7d" (renderMembersIndented (indent + 1) members)
  | .null => "null"
  | .bool true => "true"
  | .bool false => "false"
  | .int n => toString n
  | .float x => renderFloat x
  | .str text => renderString text

def renderItemsIndented (indent : Nat) : List Json → List String
  | [] => []
  | item :: more => renderIndented indent item :: renderItemsIndented indent more

def renderMembersIndented (indent : Nat) : List (String × Json) → List String
  | [] => []
  | (key, value) :: more =>
    (renderString key ++ ": " ++ renderIndented indent value) :: renderMembersIndented indent more

end

/-- The document over several lines. -/
def renderPretty (value : Json) : String := renderIndented 0 value

end ToolSchema.Json
