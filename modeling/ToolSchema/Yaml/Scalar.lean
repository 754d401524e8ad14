import ToolSchema.Number.Layout
import ToolSchema.Number.Reading

/-!
Texts as scalars of YAML documents in block style. A text stands as it is where nobody can take it
for anything else. Otherwise it is quoted, and a text of several lines is written line by line.
-/

namespace ToolSchema.Yaml

/-- A line, with the character that ends it. -/
structure Line where
  text : List Char
  ending : Char

def Line.ofString (text : String) : Line := ⟨text.toList, '\n'⟩

/-- The line with something in front of it. -/
def Line.after (start : String) (line : Line) : Line := { line with text := start.toList ++ line.text }

/-- Moves lines to the right. Empty lines stay empty. -/
def indent (lines : List Line) : List Line :=
  lines.map fun line => if line.text.isEmpty then line else line.after "  "

def isBreak (c : Char) : Bool :=
  c == '\n' || c == '\r' || c == '\u0085' || c == '\u2028' || c == '\u2029'

/-- Nothing, or a character that separates words. -/
def isGap : Option Char → Bool
  | none => true
  | some c => c == ' ' || c == '\t' || c == '\x00' || isBreak c

/-- Characters that need no escape. -/
def isPrintable (c : Char) : Bool :=
  c == '\n' || (' ' ≤ c && c ≤ '~') ||
    ('\u00a0' ≤ c && c != '\ufeff' && c != '\ufffe' && c != '\uffff')

/-- Characters that have a meaning of their own at the start of a text. -/
def openingIndicators : List Char :=
  ['#', ',', '[', ']', '\x7b', '\x7d', '&', '*', '!', '|', '>', '\'', '"', '%', '@', '\x60']

/-- The text has a meaning of its own, given the character before it. -/
def hasIndicator : Option Char → List Char → Bool
  | _, [] => false
  | none, c :: rest =>
    openingIndicators.contains c || ((c == '?' || c == ':' || c == '-') && isGap rest.head?) ||
      hasIndicator (some c) rest
  | some before, c :: rest =>
    (c == ':' && isGap rest.head?) || (c == '#' && isGap (some before)) ||
      hasIndicator (some c) rest

/-- The text starts like a line between documents. -/
def opensDocument : List Char → Bool
  | '-' :: '-' :: '-' :: _ => true
  | '.' :: '.' :: '.' :: _ => true
  | _ => false

/-- Two characters of the given classes follow each other. -/
def hasPair (first second : Char → Bool) : List Char → Bool
  | a :: b :: rest => (first a && second b) || hasPair first second (b :: rest)
  | _ => false

def isSpace (c : Char) : Bool := c == ' '

def isEdge (c : Option Char) : Bool := c.any fun c => isSpace c || isBreak c

/-- The text can stand without quotes, as far as its characters go. -/
def canBePlain (text : List Char) : Bool :=
  !isEdge text.head? && !isEdge text.getLast? && text.all (fun c => isPrintable c && !isBreak c) &&
    !opensDocument text && !hasIndicator none text

/-- Nothing has to be escaped. A space at the end of a line would be lost. -/
def isClean (text : List Char) : Bool := text.all isPrintable && !hasPair isSpace isBreak text

/-- Between single quotes, spaces at the start of a line would be lost as well. -/
def canBeSingle (text : List Char) : Bool := isClean text && !hasPair isBreak isSpace text

def canBeLiteral (text : List Char) : Bool := isClean text && !text.getLast?.any isSpace

/-! Texts that look like other values -/

/-- Words that stand for values other than texts. -/
def valueWords : List String :=
  ["", "~", "null", "Null", "NULL", "true", "True", "TRUE", "false", "False", "FALSE",
    ".inf", ".Inf", ".INF", "+.inf", "+.Inf", "+.INF", "-.inf", "-.Inf", "-.INF",
    ".nan", ".NaN", ".NAN"]

/-- The number that digits write in a base up to sixteen. -/
def ofBase? (base : Nat) (digits : List Char) : Option Nat :=
  match digits with
  | [] => none
  | _ => digits.foldlM (fun n digit => do
      let value ← Binary64.hexValue? digit
      if value < base then some (base * n + value) else none) 0

/-- The number that is written in a base other than ten, which is named in front of it. -/
def ofNamedBase? : List Char → Option Nat
  | '0' :: 'x' :: digits => ofBase? 16 digits
  | '0' :: 'o' :: digits => ofBase? 8 digits
  | '0' :: 'b' :: digits => ofBase? 2 digits
  | _ => none

/-- An integer of 128 bits in a base other than ten. -/
def isBased (text : List Char) : Bool :=
  let (negative, digits) := Number.splitSign text
  (ofNamedBase? digits).any fun n =>
    if negative then decide (n ≤ Nat.pow 2 127) else decide (n < Nat.pow 2 128)

/-- Digits that start with a zero too many. -/
def isPadded (text : List Char) : Bool :=
  match (Number.splitSign text).2 with
  | '0' :: digits => Number.isDigits digits
  | _ => false

/-- A decimal number within the range of double precision. -/
def isDecimal (text : List Char) : Bool := (Number.binary64? text).any Binary64.isFinite

/-- The text could be taken for something else than a text. -/
def isAmbiguous (text : List Char) : Bool :=
  valueWords.contains (.ofList text) || isPadded text || isDecimal text || isBased text

/-! Styles -/

inductive ScalarStyle
  | plain
  | single
  | double
  | literal
  deriving DecidableEq

/-- The style of a text. A text with line feeds is written line by line if nothing is lost by it. -/
def ScalarStyle.ofText (text : List Char) : ScalarStyle :=
  if text.contains '\n' then if canBeLiteral text then .literal else .double
  else if !isAmbiguous text && canBePlain text then .plain
  else if canBeSingle text then .single
  else .double

/-- Upper-case hexadecimal digits, with zeros in front up to the width. -/
def hexDigits (width n : Nat) : List Char :=
  let digits := (Nat.toDigits 16 n).map Char.toUpper
  List.replicate (width - digits.length) '0' ++ digits

/-- The characters whose escapes have a letter, with their letters. -/
def escapeLetters : List (Char × Char) :=
  [('\x00', '0'), ('\x07', 'a'), ('\x08', 'b'), ('\t', 't'), ('\n', 'n'), ('\x0b', 'v'),
    ('\x0c', 'f'), ('\r', 'r'), ('\x1b', 'e'), ('"', '"'), ('\\', '\\'), ('\u0085', 'N'),
    ('\u2028', 'L'), ('\u2029', 'P')]

def escape (c : Char) : List Char :=
  match escapeLetters.lookup c with
  | some letter => ['\\', letter]
  | none =>
    if isPrintable c then [c]
    else if c.toNat ≤ 0xff then '\\' :: 'x' :: hexDigits 2 c.toNat
    else if c.toNat ≤ 0xffff then '\\' :: 'u' :: hexDigits 4 c.toNat
    else '\\' :: 'U' :: hexDigits 8 c.toNat

/-- The lines of a text, each with the break that ends it, and what follows the last break. -/
def splitLines : List Char → List Line × List Char
  | [] => ([], [])
  | c :: rest =>
    let (lines, last) := splitLines rest
    if isBreak c then (⟨[], c⟩ :: lines, last)
    else
      match lines with
      | [] => ([], c :: last)
      | line :: more => ({ line with text := c :: line.text } :: more, last)

/-- The text between double quotes, where all breaks are escaped. -/
def doubleQuoted (text : List Char) : List Line :=
  [⟨'"' :: text.flatMap escape ++ ['"'], '\n'⟩]

/-- The text between single quotes. Single quotes within it are written twice. -/
def singleQuoted (text : List Char) : List Line :=
  let (lines, last) := splitLines <|
    '\'' :: text.flatMap (fun c => if c = '\'' then ['\'', '\''] else [c]) ++ ['\'']
  lines ++ [⟨last, '\n'⟩]

/-- The head of a text that is written line by line. It says whether the text starts with white
space, and how many line breaks end it: none, one, or more. -/
def literalHead (text : List Char) : String :=
  let indented := if isEdge text.head? then "2" else ""
  let ending :=
    match text.reverse with
    | [] => "-"
    | [c] => if isBreak c then "+" else "-"
    | c :: d :: _ => if !isBreak c then "-" else if isBreak d then "+" else ""
  "|" ++ indented ++ ending

/-- The text line by line, below its head. -/
def literal (text : List Char) : List Line :=
  let (lines, last) := splitLines text
  .ofString (literalHead text) :: lines ++ if last.isEmpty then [] else [⟨last, '\n'⟩]

/-- The lines of a text. The first one can follow a key or a mark. -/
def scalarLines (text : String) : List Line :=
  let chars := text.toList
  match ScalarStyle.ofText chars with
  | .plain => [.ofString text]
  | .single => singleQuoted chars
  | .double => doubleQuoted chars
  | .literal => literal chars

/-! Numbers -/

/-- The layout of numbers in YAML documents. -/
def numbers : NumberLayout := ⟨.toEven, some (-5, 15), true, false⟩

def renderFloat (x : Binary64) : String :=
  if x.isNaN then ".nan"
  else if x.isInfinite then (if x.isNegative then "-.inf" else ".inf")
  else numbers.render x

end ToolSchema.Yaml
