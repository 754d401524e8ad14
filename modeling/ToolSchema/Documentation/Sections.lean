import ToolSchema.Documentation.Basic
import ToolSchema.Text.Letters

/-!
Layouts in which a title opens a section and the items of a section share an indentation. In one of
them a title ends with a colon, in the other it is underlined with dashes.
-/

namespace ToolSchema.Documentation

open Text (isBlank isWord trim allBlank)

/-- The first lines of the items of a section, each with the lines that continue it. An item starts
at the indentation of the section, and goes on with lines that are blank or indented deeper. -/
def items (indent : Nat) : List (List Char) → List (List Char × List (List Char))
  | [] => []
  | line :: rest =>
    if allBlank line ∨ indentOf line ≠ indent then items indent rest
    else
      (line, rest.takeWhile fun next => allBlank next || decide (indent < indentOf next)) ::
        items indent rest

/-- The items of a section. Its first line that is not blank gives the indentation. -/
def sectionItems (body : List (List Char)) : List (List Char × List (List Char)) :=
  match body.find? fun line => !allBlank line with
  | some line => items (indentOf line) body
  | none => []

/-- A name without the stars before it. -/
def bareName (name : List Char) : String := .ofList (name.dropWhile (· == '*'))

/-! Titles with a colon -/

/-- The titles of sections that list parameters. -/
def googleParamTitles : List String :=
  ["Args", "Arguments", "Parameters", "Params", "Attributes", "Attrs", "Keyword Args",
    "Keyword Arguments", "Kwargs", "Other Parameters"]

def googleTitles : List String :=
  googleParamTitles ++ ["Returns", "Return", "Yields", "Yield", "Raises", "Raise", "Exceptions",
    "Except", "Examples", "Example", "Notes", "Note", "Warnings", "Warning", "Todo", "See Also",
    "References"]

/-- The title that a line holds, followed by a colon and white space only. -/
def googleTitle? (line : List Char) : Option String :=
  let title : String := .ofList (line.takeWhile (· != ':'))
  match line.dropWhile (· != ':') with
  | ':' :: after => if googleTitles.contains title ∧ allBlank after then some title else none
  | _ => none

def googleSections : List (List Char) → List (String × List (List Char))
  | [] => []
  | line :: rest =>
    match googleTitle? line with
    | some title =>
      (title, rest.takeWhile fun next => (googleTitle? next).isNone) :: googleSections rest
    | none => googleSections rest

def isAsciiLetter (c : Char) : Bool := c.isAlpha || c == '_'

/-- The type in parentheses before the colon of an item, and what follows the colon. -/
def googleItemTail? (text : List Char) : Option (Option String × List Char) :=
  let colon (type : Option String) (text : List Char) : Option (Option String × List Char) :=
    match text.dropWhile isBlank with
    | ':' :: first => some (type, first)
    | _ => none
  match text.dropWhile isBlank with
  | '(' :: inner =>
    match inner.dropWhile (· != ')') with
    | ')' :: after => colon (some (.ofList (trim (inner.takeWhile (· != ')'))))) after
    | _ => none
  | text => colon none text

/-- An item `name (type): description`, where the type may be left out and up to two stars may stand
before the name. -/
def googleItem? (line : List Char) (rest : List (List Char)) : Option Entry :=
  let text := trim line
  let stars := (text.take 2).takeWhile (· == '*')
  let word := (text.drop stars.length).takeWhile fun c => isWord c || c == '.'
  if word.head?.any isAsciiLetter then
    (googleItemTail? (text.drop (stars.length + word.length))).map fun (type, first) =>
      ⟨bareName word, type, itemDescription first rest⟩
  else none

/-- Documentation with titles that end in a colon. -/
def readGoogle (text : List (List Char)) : Documentation :=
  let sections := googleSections text
  let (short, long) := describe (text.takeWhile fun line => (googleTitle? line).isNone)
  let params := sections.flatMap fun (title, body) =>
    if googleParamTitles.contains title then
      (sectionItems body).filterMap fun (line, rest) => googleItem? line rest
    else []
  ⟨.google, short, long, params, sections.length + params.length⟩

/-! Underlined titles -/

def numpyParamTitles : List String :=
  ["Parameters", "Params", "Arguments", "Args", "Other Parameters", "Attributes", "Receives"]

/-- A line of three or more dashes, with white space around them. -/
def isUnderline (line : List Char) : Bool :=
  let dashes := trim line
  decide (3 ≤ dashes.length) && dashes.all (· == '-')

/-- The first of two lines is a title that the second one underlines. -/
def isTitle (line under : List Char) : Bool := !allBlank line && isUnderline under

def beforeTitle : List (List Char) → List (List Char)
  | [] => []
  | [line] => [line]
  | line :: under :: rest =>
    if isTitle line under then [] else line :: beforeTitle (under :: rest)

/-- The sections with their titles. Two underlines below one title leave no place for the body of
the section, and such a text has no reading. -/
def numpySections : List (List Char) → Option (List (String × List (List Char)))
  | [] => some []
  | [_] => some []
  | line :: under :: rest =>
    if isTitle line under then
      if rest.head?.any isUnderline then none
      else (numpySections (under :: rest)).map ((.ofList (trim line), beforeTitle rest) :: ·)
    else numpySections (under :: rest)

def splitAt (separator : Char) : List Char → List (List Char)
  | [] => [[]]
  | c :: rest =>
    if c = separator then [] :: splitAt separator rest
    else match splitAt separator rest with
      | [] => [[c]]
      | piece :: more => (c :: piece) :: more

/-- An item `names : type`, where commas stand between the names and the type may be left out. -/
def numpyItem (line : List Char) (rest : List (List Char)) : List Entry :=
  let text := trim line
  let names := text.takeWhile (· != ':')
  let type := nonempty? (trim ((text.dropWhile (· != ':')).drop 1))
  let description := itemDescription [] rest
  ((splitAt ',' names).map trim).filter (fun name => !name.isEmpty) |>.map fun name =>
    ⟨bareName name, type, description⟩

/-- Documentation with underlined titles. -/
def readNumpy (text : List (List Char)) : Option Documentation :=
  (numpySections text).map fun sections =>
    let (short, long) := describe (beforeTitle text)
    let params := sections.flatMap fun (title, body) =>
      if numpyParamTitles.contains title then
        (sectionItems body).flatMap fun (line, rest) => numpyItem line rest
      else []
    ⟨.numpy, short, long, params, sections.length + params.length⟩

end ToolSchema.Documentation
