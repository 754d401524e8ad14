import ToolSchema.TypeExpr.Basic
import ToolSchema.Number.Reading
import ToolSchema.Text.Basic
import ToolSchema.Text.Letters
import ToolSchema.Text.Parsed

/-!
Reading types from text: `int | None`, `Optional[list[str]]`, `tuple[int, ...]`,
`Literal['a', 1]`, `Annotated[int, 'tag']`. Words that are not built in are looked up among given
names. A failure knows what was wrong and where.
-/

namespace ToolSchema

/-- What can be wrong with the text of a type. -/
inductive TypeFault
  | expectedName
  | expectedChar (c : Char)
  | trailingText
  | optionalArity
  | notConstant (name : String)
  | endOfText
  | unterminatedString
  | invalidNumber (text : String)
  | unknownName (path : String)
  deriving DecidableEq

/-- A failure to read a type, with its position as a count of bytes. -/
structure TypeError where
  input : String
  position : Nat
  fault : TypeFault
  deriving DecidableEq

def TypeFault.message : TypeFault → String
  | .expectedName => "expected a type name"
  | .expectedChar c => "expected '" ++ toString c ++ "'"
  | .trailingText => "unexpected trailing input"
  | .optionalArity => "Optional takes exactly one argument"
  | .notConstant name => "'" ++ name ++ "' is not a literal constant"
  | .endOfText => "unexpected end of input"
  | .unterminatedString => "unterminated string"
  | .invalidNumber text => "invalid number '" ++ text ++ "'"
  | .unknownName path => "unknown type name '" ++ path ++ "'"

namespace TypeExpr

open Text (Parsed Scanned isBlank trimStart trimStart_length_le length_dropWhile_le)

/-- The meaning of names that are not built in. -/
abbrev Names := String → Option TypeExpr

/-- A fault, and the text from the place of the fault on. -/
structure Failure where
  fault : TypeFault
  rest : List Char

abbrev Reading (α : Type) := Except Failure α

/-! Words -/

def isNameChar (c : Char) : Bool := Text.isAlphanumeric c || c == '_' || c == '.'

/-- Modules that a built-in word may be qualified with. -/
def knownModules : List String := ["typing.", "collections.abc.", "builtins."]

def dropStart? : List Char → List Char → Option (List Char)
  | [], text => some text
  | _, [] => none
  | c :: start, d :: text => if c = d then dropStart? start text else none

/-- The word without a known module before it. Any other word with dots in it stays whole. -/
def unqualified (path : String) : String :=
  match knownModules.findSome? fun name => dropStart? name.toList path.toList with
  | some rest => if rest.contains '.' then path else .ofList rest
  | none => path

/-- The word names one of the abstract base classes by its full path. -/
def isAbstractBase (path : String) : Bool :=
  (dropStart? "collections.abc.".toList path.toList).isSome

/-- What a word at the start of a type stands for. -/
inductive Head
  | literal
  | tagged
  | optional
  | union
  | scalar (type : TypeExpr)
  | container (origin : Origin)
  | other

/-- The meaning of a word without its module. -/
def headOf (word : String) (abstractBase : Bool) : Head :=
  match word with
  | "Literal" => .literal
  | "Annotated" => .tagged
  | "Optional" => .optional
  | "Union" => .union
  | "Any" => .scalar .any
  | "None" | "NoneType" => .scalar .null
  | "int" => .scalar .int
  | "float" => .scalar .float
  | "str" => .scalar .str
  | "bool" => .scalar .bool
  | _ =>
    match Origin.ofWord? word abstractBase with
    | some origin => .container origin
    | none => .other

/-- A name is sought as it is written first, and without its module then. -/
def resolve (names : Names) (path : String) : Option TypeExpr :=
  (names path).or (names (unqualified path))

/-! Tokens -/

def expect (c : Char) (text : List Char) : Reading { rest : List Char // rest.length < text.length } :=
  match h : trimStart text with
  | [] => .error ⟨.expectedChar c, []⟩
  | d :: rest =>
    if d = c then
      .ok ⟨rest, by have := trimStart_length_le text; simp [h] at this; omega⟩
    else .error ⟨.expectedChar c, d :: rest⟩

theorem name_shorter {text : List Char} (h : text.takeWhile isNameChar ≠ []) :
    (text.dropWhile isNameChar).length < text.length := by
  have := congrArg List.length (List.takeWhile_append_dropWhile (p := isNameChar) (l := text))
  have := List.length_pos_iff.2 h
  simp only [List.length_append] at *
  omega

/-- A name with dots inside it, which may neither begin nor end with one. -/
def readName (text : List Char) : Reading (Parsed String text) :=
  let start := trimStart text
  let name := start.takeWhile isNameChar
  if h : name = [] ∨ name.head? = some '.' ∨ name.getLast? = some '.' then
    .error ⟨.expectedName, start⟩
  else
    .ok ⟨.ofList name, start.dropWhile isNameChar,
      Nat.lt_of_lt_of_le (name_shorter (fun e => h (.inl e))) (trimStart_length_le text)⟩

/-- The text up to the closing quote. A backslash takes the character after it as it is. -/
def readQuoted (quote : Char) : (text : List Char) → Reading (Parsed (List Char) text)
  | [] => .error ⟨.unterminatedString, []⟩
  | ['\\'] => .error ⟨.unterminatedString, []⟩
  | '\\' :: c :: rest => do
    let p ← readQuoted quote rest
    return (p.behind c (c :: ·)).behind '\\' id
  | c :: rest =>
    if c = quote then .ok (.single c rest [])
    else do
      let p ← readQuoted quote rest
      return p.behind c (c :: ·)

def isNumberChar (c : Char) : Bool :=
  c.isDigit || c == '.' || c == 'e' || c == 'E' || c == '_'

/-- A number that starts with the given character. Underscores between its digits are left out;
what is no integer of 64 bits is read in double precision. -/
def readNumber (first : Char) (rest : List Char) : Reading (Parsed Constant (first :: rest)) :=
  let digits := (first :: rest.takeWhile isNumberChar).filter (· != '_')
  let parsed (value : Constant) : Parsed Constant (first :: rest) :=
    ⟨value, rest.dropWhile isNumberChar, Nat.lt_succ_of_le (length_dropWhile_le _ rest)⟩
  match Number.int64? digits, Number.binary64? digits with
  | some n, _ => .ok (parsed (.int n))
  | none, some x => .ok (parsed (.float x))
  | none, none => .error ⟨.invalidNumber (.ofList digits), first :: rest⟩

def startsNumber (c : Char) : Bool := c.isDigit || c == '-'

def isQuote (c : Char) : Bool := c == '\'' || c == '"'

/-- A constant: a string, a number or a truth value. -/
def readConstant (text : List Char) : Reading (Parsed Constant text) :=
  have := trimStart_length_le text
  match h : trimStart text with
  | [] => .error ⟨.endOfText, []⟩
  | c :: rest =>
    if isQuote c then do
      let p ← readQuoted c rest
      return p.lift (.str <| .ofList ·) (by simp [h] at this; omega)
    else if startsNumber c then do
      let p ← readNumber c rest
      return p.lift id (by simpa [h] using this)
    else do
      let p ← readName (c :: rest)
      let found (value : Bool) : Parsed Constant text :=
        p.lift (fun _ => .bool value) (by simpa [h] using this)
      match p.value with
      | "True" | "true" => return found true
      | "False" | "false" => return found false
      | name => .error ⟨.notConstant name, p.rest⟩

/-- A tag: a string, a number or a name. -/
def readTag (text : List Char) : Reading (Parsed String text) :=
  have := trimStart_length_le text
  match h : trimStart text with
  | [] => .error ⟨.expectedName, []⟩
  | c :: rest =>
    if isQuote c then do
      let p ← readQuoted c rest
      return p.lift .ofList (by simp [h] at this; omega)
    else if startsNumber c then do
      let p ← readNumber c rest
      return p.lift Constant.text (by simpa [h] using this)
    else do
      let p ← readName (c :: rest)
      return p.lift id (by simpa [h] using this)

/-- What follows a character, after white space, if that character comes next. -/
def eat (c : Char) (text : List Char) : Option { rest : List Char // rest.length < text.length } :=
  match expect c text with
  | .ok rest => some rest
  | .error _ => none

/-- The further elements of a list, each after a comma. -/
def readMore {α : Type} (read : (text : List Char) → Reading (Parsed α text)) (text : List Char) :
    Reading (Scanned (List α) text) :=
  match eat ',' text with
  | none => .ok ⟨[], text, Nat.le_refl _⟩
  | some ⟨rest, h⟩ => do
    let first ← read rest
    have := first.shorter
    let more ← readMore read first.rest
    return ⟨first.value :: more.value, more.rest, by have := more.noLonger; omega⟩
termination_by text.length

/-- The constants of a literal type up to the closing bracket. -/
def readConstants (text : List Char) : Reading (Parsed (List Constant) text) := do
  let first ← readConstant text
  let more ← readMore readConstant first.rest
  let close ← expect ']' more.rest
  return ⟨first.value :: more.value, close.1, by
    have := first.shorter; have := more.noLonger; have := close.2; omega⟩

/-! Types -/

mutual

def readUnion (names : Names) (text : List Char) : Reading (Parsed TypeExpr text) := do
  let first ← readPrimary names text
  have := first.shorter
  let more ← readArms names first.rest
  return ⟨if more.value.isEmpty then first.value else .union (first.value :: more.value),
    more.rest, by have := more.noLonger; omega⟩
termination_by (text.length, 1)

/-- The further arms of a union, each after a bar. -/
def readArms (names : Names) (text : List Char) : Reading (Scanned (List TypeExpr) text) :=
  match eat '|' text with
  | none => .ok ⟨[], text, Nat.le_refl _⟩
  | some ⟨rest, h⟩ => do
    let first ← readPrimary names rest
    have := first.shorter
    let more ← readArms names first.rest
    return ⟨first.value :: more.value, more.rest, by have := more.noLonger; omega⟩
termination_by (text.length, 0)

def readPrimary (names : Names) (text : List Char) : Reading (Parsed TypeExpr text) :=
  have := trimStart_length_le text
  match h : trimStart text with
  | '.' :: '.' :: '.' :: rest =>
    .ok ⟨.ellipsis, rest, by rw [h] at this; exact Nat.lt_of_succ_lt (Nat.lt_of_succ_lt this)⟩
  | '(' :: rest => do
    have : rest.length < text.length := by rw [h] at this; exact this
    let inner ← readUnion names rest
    let close ← expect ')' inner.rest
    return ⟨inner.value, close.1, Nat.lt_trans close.2 (Nat.lt_trans inner.shorter this)⟩
  | start => do
    let path ← readName start
    have short : path.rest.length < text.length := by
      rw [h] at this; exact Nat.lt_of_lt_of_le path.shorter this
    match headOf (unqualified path.value) (isAbstractBase path.value) with
    | .literal => do
      let bracket ← expect '[' path.rest
      let values ← readConstants bracket.1
      return values.lift .literal (Nat.le_of_lt (Nat.lt_trans bracket.2 short))
    | .tagged => do
      let bracket ← expect '[' path.rest
      have := bracket.2
      let inner ← readUnion names bracket.1
      let tags ← readMore readTag inner.rest
      let close ← expect ']' tags.rest
      return ⟨.tagged inner.value tags.value, close.1,
        Nat.lt_trans (Nat.lt_of_lt_of_le close.2 tags.noLonger)
          (Nat.lt_trans inner.shorter (Nat.lt_trans bracket.2 short))⟩
    | .optional => do
      let args ← readArgs names path.rest
      match args.value with
      | [inner] => return args.lift (fun _ => optional inner) (Nat.le_of_lt short)
      | _ => .error ⟨.optionalArity, args.rest⟩
    | .union => do
      let args ← readArgs names path.rest
      return args.lift .union (Nat.le_of_lt short)
    | .scalar type => return ⟨type, path.rest, short⟩
    | .container origin =>
      if (eat '[' path.rest).isSome then do
        let args ← readArgs names path.rest
        return args.lift (.generic origin) (Nat.le_of_lt short)
      else return ⟨.generic origin [], path.rest, short⟩
    | .other =>
      match resolve names path.value with
      | some type => return ⟨type, path.rest, short⟩
      | none => .error ⟨.unknownName path.value, start⟩
termination_by (text.length, 0)

def readArgs (names : Names) (text : List Char) : Reading (Parsed (List TypeExpr) text) := do
  let bracket ← expect '[' text
  have := bracket.2
  let first ← readUnion names bracket.1
  have := first.shorter
  let more ← readMoreArgs names first.rest
  let close ← expect ']' more.rest
  return ⟨first.value :: more.value, close.1, by
    have := more.noLonger; have := close.2; omega⟩
termination_by (text.length, 1)

/-- The further arguments of a container, each after a comma. -/
def readMoreArgs (names : Names) (text : List Char) : Reading (Scanned (List TypeExpr) text) :=
  match eat ',' text with
  | none => .ok ⟨[], text, Nat.le_refl _⟩
  | some ⟨rest, h⟩ => do
    let first ← readUnion names rest
    have := first.shorter
    let more ← readMoreArgs names first.rest
    return ⟨first.value :: more.value, more.rest, by have := more.noLonger; omega⟩
termination_by (text.length, 0)

end

/-- A type that takes up the whole text but for white space around it. -/
def readWhole (names : Names) (text : List Char) : Reading TypeExpr := do
  let p ← readUnion names text
  match trimStart p.rest with
  | [] => return p.value
  | rest => .error ⟨.trailingText, rest⟩

def byteCount (text : List Char) : Nat := (String.ofList text).utf8ByteSize

/-- Reads a type from text. The place of a failure is where the unread rest of the text begins. -/
def parse (names : Names) (input : String) : Except TypeError TypeExpr :=
  match readWhole names input.toList with
  | .ok type => .ok type
  | .error failure =>
    .error ⟨input, byteCount input.toList - byteCount failure.rest, failure.fault⟩

/-- No name beyond the built-in ones has a meaning. -/
def noNames : Names := fun _ => none

end TypeExpr

end ToolSchema
