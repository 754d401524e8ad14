/-!
The words of a command line at one level: options with their values, and other words in order. A
level ends where a word names a subcommand. The words after it belong to the subcommand.
-/

namespace ToolSchema.Command

structure Switch where
  long : String
  short : Option Char
  takesValue : Bool
  deriving DecidableEq

/-- What the words of a level say. -/
structure Spoken where
  /-- The options in the order in which they are given. -/
  given : List (Switch × Option String)
  words : List String
  /-- The name of a subcommand, with the words after it. -/
  subcommand : Option (String × List String)

namespace Spoken

def nothing : Spoken := ⟨[], [], none⟩

def addGiven (spoken : Spoken) (given : List (Switch × Option String)) : Spoken :=
  { spoken with given := given ++ spoken.given }

def addWord (spoken : Spoken) (word : String) : Spoken :=
  { spoken with words := word :: spoken.words }

/-- The values that an option is given, in order. -/
def values (spoken : Spoken) (switch : Switch) : List (Option String) :=
  (spoken.given.filter fun entry => entry.1 = switch).map (·.2)

def count (spoken : Spoken) (switch : Switch) : Nat := (spoken.values switch).length

/-- An option without value that is given at most once. -/
def flag? (spoken : Spoken) (switch : Switch) : Option Bool :=
  match spoken.count switch with
  | 0 => some false
  | 1 => some true
  | _ => none

/-- The value of an option that is given at most once, read by a function that can refuse it. -/
def value? {α : Type} (spoken : Spoken) (switch : Switch) (read : String → Option α) :
    Option (Option α) :=
  match spoken.values switch with
  | [] => some none
  | [some value] => (read value).map some
  | _ => none

end Spoken

/-- A word that starts with a dash gives one or more options. The last of them may still wait for
its value. -/
structure Options where
  given : List (Switch × Option String)
  waiting : Option Switch

/-- A value that stands behind a letter, with or without an equals sign. -/
def attached : List Char → String
  | '=' :: value => .ofList value
  | value => .ofList value

/-- Several options by their letters. What follows an option that takes a value is the value. -/
def shortOptions (switches : List Switch) : List Char → Option Options
  | [] => some ⟨[], none⟩
  | c :: rest => do
    let switch ← switches.find? fun switch => switch.short == some c
    if switch.takesValue then
      if rest.isEmpty then return ⟨[], some switch⟩
      else return ⟨[(switch, some (attached rest))], none⟩
    else
      let options ← shortOptions switches rest
      return { options with given := (switch, none) :: options.given }

/-- An option by its name. The value may follow an equals sign. -/
def longOption (switches : List Switch) (text : List Char) : Option Options := do
  let name := text.takeWhile (· != '=')
  let switch ← switches.find? fun switch => switch.long.toList == name
  match text.dropWhile (· != '='), switch.takesValue with
  | [], true => return ⟨[], some switch⟩
  | [], false => return ⟨[(switch, none)], none⟩
  | _ :: value, true => return ⟨[(switch, some (.ofList value))], none⟩
  | _ :: _, false => none

/-- What a word is. A single dash is a word like any other. -/
inductive WordKind
  /-- The words after it are no options. -/
  | divider
  | long (text : List Char)
  | short (letters : List Char)
  | plain

def WordKind.of (word : String) : WordKind :=
  match word.toList with
  | ['-', '-'] => .divider
  | '-' :: '-' :: text => .long text
  | '-' :: c :: letters => .short (c :: letters)
  | _ => .plain

mutual

/-- Listens to the words of a level, between two options. -/
def listen (switches : List Switch) (subcommands : List String) : List String → Option Spoken
  | [] => some .nothing
  | word :: rest =>
    if subcommands.contains word then some { Spoken.nothing with subcommand := some (word, rest) }
    else
      match WordKind.of word with
      | .divider => some { Spoken.nothing with words := rest }
      | .long text => do
        listenAfter switches subcommands (← longOption switches text) rest
      | .short letters => do
        listenAfter switches subcommands (← shortOptions switches letters) rest
      | .plain => do return (← listen switches subcommands rest).addWord word
termination_by words => (words.length, 0)

/-- Listens to the words after options. An option that waits for its value takes the next word,
unless that starts with a dash. -/
def listenAfter (switches : List Switch) (subcommands : List String) (options : Options) :
    List String → Option Spoken
  | [] => if options.waiting.isSome then none else some (Spoken.nothing.addGiven options.given)
  | word :: rest =>
    match options.waiting with
    | none => do return (← listen switches subcommands (word :: rest)).addGiven options.given
    | some switch =>
      match WordKind.of word with
      | .plain => do
        return (← listen switches subcommands rest).addGiven
          (options.given ++ [(switch, some word)])
      | _ => none
termination_by words => (words.length, 1)

end

end ToolSchema.Command
