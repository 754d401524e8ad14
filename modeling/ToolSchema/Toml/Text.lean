/-!
Texts as TOML values. The first form that shows the text without escapes is taken: between double
quotes, between single quotes, and between three of either. A text that every form has to escape
stands between double quotes, three of them if it has several lines.
-/

namespace ToolSchema.Toml

/-- Control characters other than tabs and line feeds. -/
def isControl (c : Char) : Bool := (c ≤ '\x1f' && c != '\t' && c != '\n') || c == '\x7f'

/-- The length of the longest run of a character, given the length of the run that has begun. -/
def longestRun (c : Char) (present : Nat) : List Char → Nat
  | [] => present
  | d :: rest =>
    if d = c then longestRun c (present + 1) rest else max present (longestRun c 0 rest)

/-- The quotes around a text. -/
inductive Quotes
  | double
  | single
  | tripleDouble
  | tripleSingle
  deriving DecidableEq

namespace Quotes

def text : Quotes → String
  | .double => "\""
  | .single => "'"
  | .tripleDouble => "\"\"\""
  | .tripleSingle => "'''"

/-- Texts of several lines stand between three quotes. -/
def isTriple : Quotes → Bool
  | .double | .single => false
  | .tripleDouble | .tripleSingle => true

/-- How many double quotes in a row need no escape. Three of them would end the text. -/
def freeQuotes (quotes : Quotes) : Nat := if quotes.isTriple then 2 else 0

/-- The quotes for a text. Between single quotes nothing can be escaped. -/
def ofText (text : List Char) : Quotes :=
  let broken := text.contains '\n'
  let doubles := longestRun '"' 0 text
  let singles := longestRun '\'' 0 text
  if text.any isControl then if broken then .tripleDouble else .double
  else if !text.contains '\\' && !broken && doubles = 0 then .double
  else if !broken && singles = 0 then .single
  else if !text.contains '\\' && doubles ≤ 2 then .tripleDouble
  else if singles ≤ 2 then .tripleSingle
  else if broken then .tripleDouble
  else .double

end Quotes

def hex4 (n : Nat) : List Char :=
  [n / 4096, n / 256 % 16, n / 16 % 16, n % 16].map fun digit => (Nat.digitChar digit).toUpper

/-- One character between double quotes, other than a double quote. -/
def escape (quotes : Quotes) (c : Char) : List Char :=
  match c with
  | '\\' => ['\\', '\\']
  | '\x08' => ['\\', 'b']
  | '\t' => ['\\', 't']
  | '\n' => if quotes.isTriple then ['\n'] else ['\\', 'n']
  | '\x0c' => ['\\', 'f']
  | '\r' => ['\\', 'r']
  | _ => if isControl c then '\\' :: 'u' :: hex4 c.toNat else [c]

/-- A text between double quotes, after a run of double quotes that were not escaped. -/
def escapeAfter (quotes : Quotes) (run : Nat) : List Char → List Char
  | [] => []
  | '"' :: rest =>
    if run < quotes.freeQuotes then '"' :: escapeAfter quotes (run + 1) rest
    else '\\' :: '"' :: escapeAfter quotes 0 rest
  | c :: rest => escape quotes c ++ escapeAfter quotes 0 rest

def content (quotes : Quotes) (text : List Char) : List Char :=
  match quotes with
  | .double | .tripleDouble => escapeAfter quotes 0 text
  | .single | .tripleSingle => text

/-- The text as a value. After three quotes, a text of several lines starts on a line of its own. -/
def quote (text : String) : String :=
  let chars := text.toList
  let quotes := Quotes.ofText chars
  let opening := if quotes.isTriple && chars.contains '\n' then "\n" else ""
  quotes.text ++ opening ++ .ofList (content quotes chars) ++ quotes.text

end ToolSchema.Toml
