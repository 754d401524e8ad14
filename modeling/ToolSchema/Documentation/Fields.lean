import ToolSchema.Documentation.Basic

/-!
Layouts in which every item starts at the left margin with a marker and a tag.
-/

namespace ToolSchema.Documentation

open Text (isBlank trim trimEnd allBlank)

/-- What distinguishes one field layout from another. -/
structure FieldStyle where
  layout : Layout
  marker : Char
  tags : List String

def FieldStyle.rest : FieldStyle :=
  ⟨.rest, ':', ["param", "parameter", "arg", "argument", "attribute", "key", "keyword", "type",
    "return", "returns", "rtype", "raise", "raises", "except", "exception", "yield", "yields"]⟩

def FieldStyle.epydoc : FieldStyle :=
  ⟨.epydoc, '@', ["param", "kwparam", "ivar", "type", "return", "returns", "rtype", "raise",
    "raises"]⟩

/-- The tags that describe a parameter. -/
def paramTags : List String :=
  ["param", "parameter", "arg", "argument", "attribute", "key", "keyword", "kwparam", "ivar"]

/-- One item: its tag, the type and the name given with it, and the text after the colon. -/
structure Field where
  tag : String
  type : Option String
  name : Option String
  text : List Char

def isMarked (marker : Char) (line : List Char) : Bool := line.head? == some marker

/-- The last word of a text without white space at its ends, and what stands before it. -/
def lastWord (text : List Char) : List Char × List Char :=
  ((text.reverse.takeWhile fun c => !isBlank c).reverse,
    trimEnd (text.reverse.dropWhile fun c => !isBlank c).reverse)

/-- An item in the form `tag type name: text` after its marker. The type may be left out, or the
type and the name. -/
def field? (style : FieldStyle) (line : List Char) : Option Field :=
  match line with
  | [] => none
  | _ :: body =>
    let tag : String := .ofList (body.takeWhile fun c => !isBlank c && c != ':')
    let after := body.dropWhile fun c => !isBlank c && c != ':'
    match after.dropWhile (· != ':') with
    | ':' :: text =>
      if isMarked style.marker line ∧ style.tags.contains tag then
        let (name, type) := lastWord (trim (after.takeWhile (· != ':')))
        some ⟨tag, nonempty? type, nonempty? name, text⟩
      else none
    | _ => none

/-- The marked lines, each with the lines up to the next one. -/
def fieldLines (marker : Char) : List (List Char) → List (List Char × List (List Char))
  | [] => []
  | line :: rest =>
    if isMarked marker line then
      (line, rest.takeWhile fun next => !isMarked marker next) :: fieldLines marker rest
    else fieldLines marker rest

/-- Changes the first entry with the name, or adds one at the end. -/
def upsert (entries : List Entry) (name : String) (change : Entry → Entry) : List Entry :=
  match entries with
  | [] => [change ⟨name, none, none⟩]
  | entry :: more =>
    if entry.name = name then change entry :: more else entry :: upsert more name change

/-- What an item adds to the entries. The type of a parameter can be given with its description or
by an item of its own, which counts whatever it holds. -/
def addField (entries : List Entry) (field : Field) (rest : List (List Char)) : List Entry :=
  let description := itemDescription field.text rest
  match field.name with
  | none => entries
  | some name =>
    if field.tag = "type" then
      upsert entries name fun entry => ⟨entry.name, description.or field.type, entry.description⟩
    else if paramTags.contains field.tag then
      upsert entries name fun entry => ⟨entry.name, field.type.or entry.type, description⟩
    else entries

/-- Documentation with marked items. -/
def readFields (style : FieldStyle) (text : List (List Char)) : Documentation :=
  let (short, long) := describe (text.takeWhile fun line => !isMarked style.marker line)
  let fields := (fieldLines style.marker text).filterMap fun (line, rest) =>
    (field? style line).map (·, rest)
  ⟨style.layout, short, long,
    fields.foldl (fun entries (field, rest) => addField entries field rest) [], fields.length⟩

end ToolSchema.Documentation
