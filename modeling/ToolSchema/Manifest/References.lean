import ToolSchema.Entries

/-!
The names that the text of a type refers to, and an order of names in which each one comes after
those that it refers to. Such an order exists exactly when no name refers to itself, directly or
through others.
-/

namespace ToolSchema.Manifest

/-! Names in texts -/

def isNameStart (c : Char) : Bool := c.isAlpha || c == '_'

def isNamePart (c : Char) : Bool := c.isAlphanum || c == '_'

/-- A name of ASCII letters, digits and underscores that does not start with a digit. -/
def isIdentifier (name : String) : Bool :=
  name.toList.head?.any isNameStart && name.toList.all isNamePart

/-- What follows the closing quote. A backslash hides the character after it, unless the line ends
there. -/
def afterQuote? (quote : Char) : List Char → Option (List Char)
  | [] => none
  | ['\\'] => none
  | '\\' :: c :: rest => if c = '\n' then none else afterQuote? quote rest
  | c :: rest => if c = quote then some rest else afterQuote? quote rest

theorem afterQuote?_length {quote : Char} {text rest : List Char}
    (h : afterQuote? quote text = some rest) : rest.length < text.length := by
  fun_induction afterQuote? quote text with
  | case1 => simp at h
  | case2 => simp at h
  | case3 => simp at h
  | case4 _ _ _ ih => have := ih h; simp; omega
  | case5 => simp at h; simp [h]
  | case6 => rename_i ih; have := ih h; simp; omega

/-- The text with a space in the place of every quoted string. A quote that is not closed stands
for itself. -/
def blankQuotes (text : List Char) : List Char :=
  match text with
  | [] => []
  | c :: rest =>
    if c = '\'' ∨ c = '"' then
      match _found : afterQuote? c rest with
      | some after => ' ' :: blankQuotes after
      | none => c :: blankQuotes rest
    else c :: blankQuotes rest
termination_by text.length
decreasing_by
  · have := afterQuote?_length _found; simp; omega
  · simp
  · simp

/-- The longest runs of letters, digits and underscores, with empty runs between other
characters. -/
def nameRuns : List Char → List (List Char)
  | [] => [[]]
  | c :: rest =>
    match isNamePart c, nameRuns rest with
    | true, run :: more => (c :: run) :: more
    | true, [] => [[c]]
    | false, runs => [] :: runs

/-- The names in a text. Digits before a name do not belong to it. -/
def identifiers (text : List Char) : List String :=
  ((nameRuns text).map fun run => run.dropWhile Char.isDigit).filterMap fun name =>
    if name.isEmpty then none else some (.ofList name)

/-- The declared names that occur in the text of a type outside of quotes. -/
def references (declared : List String) (text : String) : List String :=
  (identifiers (blankQuotes text.toList)).filter declared.contains

/-! Order -/

/-- Names with the names that they refer to. -/
abbrev Graph := Entries (List String)

/-- The number of names that are not on the way to the present one. -/
def unvisited (graph : Graph) (way : List String) : Nat :=
  (graph.filter fun entry => !way.contains entry.1).length

theorem unvisited_lt {graph : Graph} {way : List String} {name : String} {targets : List String}
    (found : graph.get? name = some targets) (fresh : ¬ way.contains name) :
    unvisited graph (way ++ [name]) < unvisited graph way := by
  have split : (graph.filter fun entry => !(way ++ [name]).contains entry.1) =
      (graph.filter fun entry => !way.contains entry.1).filter fun entry => entry.1 != name := by
    rw [List.filter_filter]
    congr 1
    funext entry
    by_cases h : entry.1 = name <;> simp [h]
  obtain ⟨entry, hfind, -⟩ := Option.map_eq_some_iff.1 found
  have hmem := List.mem_of_find?_eq_some hfind
  have hname : entry.1 = name := by simpa using List.find?_some hfind
  unfold unvisited
  rw [split]
  refine List.length_filter_lt_length_iff_exists.2 ⟨entry, ?_, by simp [hname]⟩
  rw [List.mem_filter]
  exact ⟨hmem, by simpa [hname] using fresh⟩

mutual

/-- Puts a name into the order, after the names that it refers to. The way holds the names that lead
to this one; meeting one of them again closes a cycle. -/
def visit (graph : Graph) (way order : List String) (name : String) :
    Except (List String) (List String) :=
  if order.contains name then .ok order
  else if _fresh : way.contains name then
    .error (way.dropWhile (· != name) ++ [name])
  else
    match _found : graph.get? name with
    | none => .ok (order ++ [name])
    | some targets =>
      (visitAll graph (way ++ [name]) order targets).map (· ++ [name])
termination_by (unvisited graph way, 0)
decreasing_by exact Prod.Lex.left _ _ (unvisited_lt _found _fresh)

/-- Puts several names into the order, one after the other. -/
def visitAll (graph : Graph) (way order : List String) :
    List String → Except (List String) (List String)
  | [] => .ok order
  | name :: more => do
    let order ← visit graph way order name
    visitAll graph way order more
termination_by names => (unvisited graph way, names.length + 1)

end

/-- An order of all names, or the names of a cycle with the first one repeated at the end. -/
def resolutionOrder (graph : Graph) : Except (List String) (List String) :=
  visitAll graph [] [] graph.keys

end ToolSchema.Manifest
