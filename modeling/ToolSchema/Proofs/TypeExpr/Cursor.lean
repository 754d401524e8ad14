import ToolSchema.Proofs.Documentation.Slices
import ToolSchema.TypeExpr.Parser

/-! The reader of types as a cursor on the bytes of a text. The cursor looks at the text through
slices, which fail inside a character or past the end, and nothing makes sure beforehand that its
loops and its calls of itself come to an end: they are given room, and a run that needs more of it
is stopped. A run keeps an account of where the cursor has been and inside of which calls. -/
namespace ToolSchema.TypeExpr

open Documentation (fromByte?)

namespace Cursor

/-- The parts of the reader that can be entered again before they are left. A loop enters itself
for its next round. -/
inductive Procedure
  | union
  | primary
  | arms
  | arguments
  | tags
  | constants
  | blanks
  | name
  | quoted
  | number
  deriving DecidableEq

/-- A call, and where the cursor stood at its beginning. -/
structure Call where
  procedure : Procedure
  position : Nat

/-- Where the cursor stands, and the calls that have not ended, from the latest on. -/
structure Moment where
  calls : List Call
  position : Nat

/-- Why a run ends without a type: a fault in the text, a slice that cannot be taken, or calls
inside calls beyond the room for them. -/
inductive Stop
  | fault (error : TypeError)
  | badSlice
  | noRoom

structure State where
  input : String
  position : Nat
  /-- Every moment up to now. -/
  moments : List Moment

end Cursor

/-- A reader that may move the cursor. -/
abbrev Cursor := ExceptT Cursor.Stop (StateM Cursor.State)

namespace Cursor

/-! The cursor -/

def position : Cursor Nat := return (← get).position

def fail {α : Type} (fault : TypeFault) : Cursor α := do
  let state ← get
  throw (.fault ⟨state.input, state.position, fault⟩)

def sliceFrom (start : Nat) : Cursor (List Char) := do
  match fromByte? start (← get).input.toList with
  | some text => return text
  | none => throw .badSlice

def slice (start stop : Nat) : Cursor (List Char) := do
  let long ← sliceFrom start
  let short ← sliceFrom stop
  if start ≤ stop then return long.take (long.length - short.length) else throw .badSlice

def current : Cursor (Option Char) := do
  let text ← sliceFrom (← position)
  return text.head?

def moveTo (calls : List Call) (position : Nat) : Cursor Unit :=
  modify fun state => { state with position, moments := state.moments ++ [⟨calls, position⟩] }

/-- Moves behind the current character, if there is one. -/
def advance (calls : List Call) : Cursor Unit := do
  match ← current with
  | some c => moveTo calls ((← position) + c.utf8Size)
  | none => return

def isAtEnd : Cursor Bool := do
  let state ← get
  return decide (state.input.utf8ByteSize ≤ state.position)

/-- Begins a call inside the given ones. -/
def enter (procedure : Procedure) (calls : List Call) : Cursor (List Call) := do
  let start ← position
  let calls := ⟨procedure, start⟩ :: calls
  moveTo calls start
  return calls

/-! Tokens -/

def skipWhile (procedure : Procedure) (p : Char → Bool) : Nat → List Call → Cursor Unit
  | 0, _ => throw .noRoom
  | room + 1, calls => do
    let calls ← enter procedure calls
    match ← current with
    | some c =>
      if p c then
        advance calls
        skipWhile procedure p room calls
      else return
    | none => return

def skipBlanks (room : Nat) (calls : List Call) : Cursor Unit :=
  skipWhile .blanks Text.isBlank room calls

def peek (c : Char) (room : Nat) (calls : List Call) : Cursor Bool := do
  skipBlanks room calls
  return decide ((← current) = some c)

/-- Moves behind a character, if it comes next after white space. -/
def eat (c : Char) (room : Nat) (calls : List Call) : Cursor Bool := do
  if ← peek c room calls then
    advance calls
    return true
  else return false

def expect (c : Char) (room : Nat) (calls : List Call) : Cursor Unit := do
  if ← eat c room calls then return
  else fail (.expectedChar c)

def name (room : Nat) (calls : List Call) : Cursor String := do
  skipBlanks room calls
  let start ← position
  skipWhile .name isNameChar room calls
  let chars ← slice start (← position)
  if chars = [] ∨ chars.head? = some '.' ∨ chars.getLast? = some '.' then
    moveTo calls start
    fail .expectedName
  else return .ofList chars

def untilQuote (quote : Char) : Nat → List Call → Cursor (List Char)
  | 0, _ => throw .noRoom
  | room + 1, calls => do
    let calls ← enter .quoted calls
    match ← current with
    | some '\\' =>
      advance calls
      match ← current with
      | some c =>
        advance calls
        return c :: (← untilQuote quote room calls)
      | none => fail .unterminatedString
    | some c =>
      advance calls
      if c = quote then return []
      else return c :: (← untilQuote quote room calls)
    | none => fail .unterminatedString

def quoted (quote : Char) (room : Nat) (calls : List Call) : Cursor String := do
  advance calls
  return .ofList (← untilQuote quote room calls)

def skipMinus (calls : List Call) : Cursor Unit := do
  if (← current) = some '-' then advance calls else return

def number (room : Nat) (calls : List Call) : Cursor Constant := do
  let start ← position
  skipMinus calls
  skipWhile .number isNumberChar room calls
  let chars ← slice start (← position)
  let digits := chars.filter (· != '_')
  match Number.int64? digits, Number.binary64? digits with
  | some n, _ => return .int n
  | none, some x => return .float x
  | none, none =>
    moveTo calls start
    fail (.invalidNumber (.ofList digits))

def constant (room : Nat) (calls : List Call) : Cursor Constant := do
  skipBlanks room calls
  match ← current with
  | some c =>
    if isQuote c then return .str (← quoted c room calls)
    else if startsNumber c then number room calls
    else do
      let word ← name room calls
      if word = "True" ∨ word = "true" then return .bool true
      else if word = "False" ∨ word = "false" then return .bool false
      else fail (.notConstant word)
  | none => fail .endOfText

def tag (room : Nat) (calls : List Call) : Cursor String := do
  skipBlanks room calls
  match ← current with
  | some c =>
    if isQuote c then quoted c room calls
    else if startsNumber c then return (← number room calls).text
    else name room calls
  | none => name room calls

/-! Lists -/

section

variable {α : Type} (procedure : Procedure) (mark : Char) (element : List Call → Cursor α)

/-- The further elements of a list, each after a mark. -/
def more : Nat → List Call → Cursor (List α)
  | 0, _ => throw .noRoom
  | room + 1, calls => do
    let calls ← enter procedure calls
    if ← eat mark room calls then
      let first ← element calls
      return first :: (← more room calls)
    else return []

/-- Elements with commas between them, up to the closing bracket. -/
def elements (room : Nat) (calls : List Call) : Cursor (List α) := do
  let first ← element calls
  let rest ← more procedure ',' element room calls
  expect ']' room calls
  return first :: rest

end

/-! Types -/

/-- Types in brackets with commas between them. -/
def arguments (type : List Call → Cursor TypeExpr) (room : Nat) (calls : List Call) :
    Cursor (List TypeExpr) := do
  expect '[' room calls
  elements .arguments type room calls

/-- A type that begins with a word. -/
def named (names : Names) (type : List Call → Cursor TypeExpr) (room : Nat) (calls : List Call) :
    Cursor TypeExpr := do
  let start ← position
  let path ← name room calls
  match headOf (unqualified path) (isAbstractBase path) with
  | .literal =>
    expect '[' room calls
    return .literal (← elements .constants (constant room) room calls)
  | .tagged =>
    expect '[' room calls
    let inner ← type calls
    let tags ← more .tags ',' (tag room) room calls
    expect ']' room calls
    return .tagged inner tags
  | .optional =>
    match ← arguments type room calls with
    | [inner] => return optional inner
    | _ => fail .optionalArity
  | .union => return .union (← arguments type room calls)
  | .scalar type => return type
  | .container origin =>
    if ← peek '[' room calls then return .generic origin (← arguments type room calls)
    else return .generic origin []
  | .other =>
    match resolve names path with
    | some type => return type
    | none =>
      moveTo calls start
      fail (.unknownName path)

mutual

def union (names : Names) : Nat → List Call → Cursor TypeExpr
  | 0, _ => throw .noRoom
  | room + 1, calls => do
    let calls ← enter .union calls
    let first ← primary names room calls
    let rest ← more .arms '|' (primary names room) room calls
    return if rest.isEmpty then first else .union (first :: rest)

def primary (names : Names) : Nat → List Call → Cursor TypeExpr
  | 0, _ => throw .noRoom
  | room + 1, calls => do
    let calls ← enter .primary calls
    skipBlanks room calls
    let ahead ← sliceFrom (← position)
    if ['.', '.', '.'].isPrefixOf ahead then
      moveTo calls ((← position) + 3)
      return .ellipsis
    else if ← eat '(' room calls then
      let inner ← union names room calls
      expect ')' room calls
      return inner
    else named names (union names room) room calls

end

/-- A type that takes up the whole text but for white space around it. -/
def whole (names : Names) (room : Nat) : Cursor TypeExpr := do
  let type ← union names room []
  skipBlanks room []
  if ← isAtEnd then return type
  else fail .trailingText

/-- What becomes of reading a text from its beginning, and all moments on the way. -/
def run (names : Names) (room : Nat) (input : String) : Except Stop TypeExpr × List Moment :=
  let (result, state) := (ExceptT.run (whole names room)).run ⟨input, 0, []⟩
  (result, state.moments)

end Cursor

end ToolSchema.TypeExpr
