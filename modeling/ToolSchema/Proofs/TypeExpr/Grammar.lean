import ToolSchema.Number.Reading
import ToolSchema.Text.Basic
import ToolSchema.Text.Letters
import ToolSchema.TypeExpr.Basic

/-! The notation of types as a grammar. Each relation says that a text begins with
something written in a certain way, what that means, and which rest of the text
comes after it. -/
namespace ToolSchema.TypeExpr.Grammar

open Text (isBlank)

/-! Tokens -/

/-- The text begins with all characters of the kind that stand there in a row. -/
structure Run (p : Char → Prop) (text run rest : List Char) : Prop where
  split : text = run ++ rest
  inside : ∀ c ∈ run, p c
  longest : ∀ c ∈ rest.head?, ¬ p c

def Skips (text rest : List Char) : Prop := ∃ blanks, Run (isBlank · = true) text blanks rest

/-- A character behind white space. -/
def Mark (c : Char) (text rest : List Char) : Prop := Skips text (c :: rest)

/-- A token behind white space. -/
def Spaced {α : Type} (token : List Char → α → List Char → Prop) (text : List Char) (value : α)
    (rest : List Char) : Prop :=
  ∃ start, Skips text start ∧ token start value rest

def IsNameChar (c : Char) : Prop := Text.isAlphanumeric c = true ∨ c = '_' ∨ c = '.'

/-- A name is a run of letters, digits, underscores and dots. It neither begins
nor ends with a dot. -/
structure Name (text : List Char) (name : String) (rest : List Char) : Prop where
  run : Run IsNameChar text name.toList rest
  nonempty : name.toList ≠ []
  first : name.toList.head? ≠ some '.'
  last : name.toList.getLast? ≠ some '.'

/-- The text up to the closing quote. A backslash takes the character after it as
it is. -/
inductive Quoted (quote : Char) : List Char → List Char → List Char → Prop
  | close (rest : List Char) : Quoted quote (quote :: rest) [] rest
  | escape (c : Char) {text chars rest : List Char} (h : Quoted quote text chars rest) :
      Quoted quote ('\\' :: c :: text) (c :: chars) rest
  | char {c : Char} (hBackslash : c ≠ '\\') (hQuote : c ≠ quote) {text chars rest : List Char}
      (h : Quoted quote text chars rest) : Quoted quote (c :: text) (c :: chars) rest

/-- A string between single or double quotes. -/
def QuotedText (text : List Char) (value : String) (rest : List Char) : Prop :=
  ∃ quote ∈ ['\'', '"'], ∃ inside, text = quote :: inside ∧ Quoted quote inside value.toList rest

def IsNumberChar (c : Char) : Prop :=
  c.isDigit = true ∨ c = '.' ∨ c = 'e' ∨ c = 'E' ∨ c = '_'

/-- The number that is written without the underscores: an integer of 64 bits, or
else a number in double precision. -/
inductive NumberValue (chars : List Char) : Constant → Prop
  | int {n : Int64} (h : Number.int64? (chars.filter (· != '_')) = some n) :
      NumberValue chars (.int n)
  | float {x : Binary64} (hInt : Number.int64? (chars.filter (· != '_')) = none)
      (h : Number.binary64? (chars.filter (· != '_')) = some x) : NumberValue chars (.float x)

/-- A number with or without a minus sign. -/
inductive NumberText : List Char → Constant → List Char → Prop
  | plain {text chars rest : List Char} {value : Constant} (hRun : Run IsNumberChar text chars rest)
      (hValue : NumberValue chars value) : NumberText text value rest
  | negative {text chars rest : List Char} {value : Constant}
      (hRun : Run IsNumberChar text chars rest) (hValue : NumberValue ('-' :: chars) value) :
      NumberText ('-' :: text) value rest

/-- A constant is a string, a number or a truth value. -/
inductive ConstantText (number : List Char → Constant → List Char → Prop) :
    List Char → Constant → List Char → Prop
  | str {text rest : List Char} {value : String} (h : QuotedText text value rest) :
      ConstantText number text (.str value) rest
  | number {text rest : List Char} {value : Constant} (h : number text value rest) :
      ConstantText number text value rest
  | true {text rest : List Char} {name : String} (hName : name ∈ ["True", "true"])
      (h : Name text name rest) : ConstantText number text (.bool true) rest
  | false {text rest : List Char} {name : String} (hName : name ∈ ["False", "false"])
      (h : Name text name rest) : ConstantText number text (.bool false) rest

/-- A tag is a string, a number or a name. -/
inductive TagText (number : List Char → Constant → List Char → Prop)
    (name : List Char → String → List Char → Prop) : List Char → String → List Char → Prop
  | str {text rest : List Char} {value : String} (h : QuotedText text value rest) :
      TagText number name text value rest
  | number {text rest : List Char} {value : Constant} (h : number text value rest) :
      TagText number name text value.text rest
  | name {text rest : List Char} {value : String} (h : name text value rest) :
      TagText number name text value rest

/-- How paths, constants and tags are written. -/
structure Lexicon where
  path : List Char → String → List Char → Prop
  constant : List Char → Constant → List Char → Prop
  tag : List Char → String → List Char → Prop

/-- Only a digit or a minus sign makes a number. -/
def LeadingNumber (text : List Char) (value : Constant) (rest : List Char) : Prop :=
  NumberText text value rest ∧ ∃ c ∈ text.head?, c.isDigit = true ∨ c = '-'

/-- A name that could not be the start of a number. -/
def TagName (text : List Char) (name : String) (rest : List Char) : Prop :=
  Name text name rest ∧ ∀ c ∈ text.head?, c.isDigit = false

/-- The tokens of the notation. Where constants and tags stand, the first character
tells numbers from names. -/
def tokens : Lexicon := ⟨Name, ConstantText LeadingNumber, TagText LeadingNumber TagName⟩

/-! Words -/

/-- Modules that a built-in word may be qualified with. -/
def modules : List String := ["typing.", "collections.abc.", "builtins."]

/-- The word of a path is what comes after a known module, unless that has dots
in it. -/
inductive Spells : String → String → Prop
  | qualified {module word : String} (hModule : module ∈ modules) (hWord : '.' ∉ word.toList) :
      Spells (module ++ word) word
  | plain {path : String}
      (h : ∀ module ∈ modules, ∀ word, path = module ++ word → '.' ∈ word.toList) :
      Spells path path

/-- Words that open a form of their own. -/
def forms : List String := ["Literal", "Annotated", "Optional", "Union"]

def scalars : List (String × TypeExpr) :=
  [("Any", .any), ("None", .null), ("NoneType", .null), ("int", .int), ("float", .float),
    ("str", .str), ("bool", .bool)]

def containers : List (String × Origin) :=
  [("list", .list), ("List", .list), ("tuple", .tuple), ("Tuple", .tuple), ("dict", .dict),
    ("Dict", .dict), ("set", .set), ("Set", .set), ("frozenset", .frozenSet),
    ("FrozenSet", .frozenSet), ("bytes", .bytes), ("AbstractSet", .abstractSet),
    ("MutableSet", .mutableSet), ("Mapping", .mapping), ("MutableMapping", .mutableMapping),
    ("MappingView", .mappingView), ("Sequence", .sequence), ("MutableSequence", .mutableSequence),
    ("ValuesView", .valuesView), ("KeysView", .keysView), ("Iterable", .iterable),
    ("Iterator", .iterator), ("Container", .container), ("Collection", .collection),
    ("Sized", .sized), ("Reversible", .reversible), ("ByteString", .byteString)]

/-- The container of a path. The set among the abstract base classes is another
one than the set of the same name elsewhere. -/
inductive ContainerPath : String → Origin → Prop
  | abstractSet : ContainerPath "collections.abc.Set" .abstractSet
  | word {path word : String} {origin : Origin} (hPath : path ≠ "collections.abc.Set")
      (hWord : Spells path word) (hTable : (word, origin) ∈ containers) : ContainerPath path origin

def BuiltIn (word : String) : Prop :=
  word ∈ forms ∨ word ∈ scalars.map (·.1) ∨ word ∈ containers.map (·.1)

/-- What a path means among given names. The whole path is looked up first and the
word then, unless the word is built in. -/
inductive NamePath (names : String → Option TypeExpr) : String → TypeExpr → Prop
  | path {path word : String} {t : TypeExpr} (hWord : Spells path word) (hOther : ¬ BuiltIn word)
      (h : names path = some t) : NamePath names path t
  | word {path word : String} {t : TypeExpr} (hWord : Spells path word) (hOther : ¬ BuiltIn word)
      (hPath : names path = none) (h : names word = some t) : NamePath names path t

/-! Types -/

/-- Elements one after another, each behind a mark. -/
inductive Items {α : Type} (mark : Char) (element : List Char → α → List Char → Prop) :
    List Char → List α → List Char → Prop
  | nil (text : List Char) : Items mark element text [] text
  | cons {text inside mid rest : List Char} {value : α} {values : List α}
      (hMark : Mark mark text inside) (hElement : element inside value mid)
      (hMore : Items mark element mid values rest) :
      Items mark element text (value :: values) rest

mutual

/-- Types with bars between them. A single one stands for itself. -/
inductive Choice (lexicon : Lexicon) (names : String → Option TypeExpr) :
    List Char → TypeExpr → List Char → Prop
  | single {text rest : List Char} {t : TypeExpr} (h : Primary lexicon names text t rest) :
      Choice lexicon names text t rest
  | several {text mid rest : List Char} {first second : TypeExpr} {more : List TypeExpr}
      (hFirst : Primary lexicon names text first mid)
      (hMore : Items '|' (Primary lexicon names) mid (second :: more) rest) :
      Choice lexicon names text (.union (first :: second :: more)) rest

/-- A type without bars of its own. -/
inductive Primary (lexicon : Lexicon) (names : String → Option TypeExpr) :
    List Char → TypeExpr → List Char → Prop
  | ellipsis {text rest : List Char} (h : Skips text ('.' :: '.' :: '.' :: rest)) :
      Primary lexicon names text .ellipsis rest
  | group {text inside close rest : List Char} {t : TypeExpr} (hOpen : Mark '(' text inside)
      (h : Choice lexicon names inside t close) (hClose : Mark ')' close rest) :
      Primary lexicon names text t rest
  | literal {text after inside mid close rest : List Char} {path : String} {first : Constant}
      {more : List Constant} (hPath : Spaced lexicon.path text path after)
      (hForm : Spells path "Literal") (hOpen : Mark '[' after inside)
      (hFirst : Spaced lexicon.constant inside first mid)
      (hMore : Items ',' (Spaced lexicon.constant) mid more close) (hClose : Mark ']' close rest) :
      Primary lexicon names text (.literal (first :: more)) rest
  | tagged {text after inside mid close rest : List Char} {path : String} {inner : TypeExpr}
      {tags : List String} (hPath : Spaced lexicon.path text path after)
      (hForm : Spells path "Annotated") (hOpen : Mark '[' after inside)
      (hInner : Choice lexicon names inside inner mid)
      (hTags : Items ',' (Spaced lexicon.tag) mid tags close) (hClose : Mark ']' close rest) :
      Primary lexicon names text (.tagged inner tags) rest
  | optional {text after inside close rest : List Char} {path : String} {inner : TypeExpr}
      (hPath : Spaced lexicon.path text path after) (hForm : Spells path "Optional")
      (hOpen : Mark '[' after inside) (hInner : Choice lexicon names inside inner close)
      (hClose : Mark ']' close rest) : Primary lexicon names text (optional inner) rest
  | union {text after inside mid close rest : List Char} {path : String} {first : TypeExpr}
      {more : List TypeExpr} (hPath : Spaced lexicon.path text path after)
      (hForm : Spells path "Union") (hOpen : Mark '[' after inside)
      (hFirst : Choice lexicon names inside first mid)
      (hMore : Items ',' (Choice lexicon names) mid more close) (hClose : Mark ']' close rest) :
      Primary lexicon names text (.union (first :: more)) rest
  | scalar {text rest : List Char} {path word : String} {t : TypeExpr}
      (hPath : Spaced lexicon.path text path rest) (hWord : Spells path word)
      (hTable : (word, t) ∈ scalars) : Primary lexicon names text t rest
  | bare {text rest : List Char} {path : String} {origin : Origin}
      (hPath : Spaced lexicon.path text path rest) (hOrigin : ContainerPath path origin) :
      Primary lexicon names text (.generic origin []) rest
  | generic {text after inside mid close rest : List Char} {path : String} {origin : Origin}
      {first : TypeExpr} {more : List TypeExpr} (hPath : Spaced lexicon.path text path after)
      (hOrigin : ContainerPath path origin) (hOpen : Mark '[' after inside)
      (hFirst : Choice lexicon names inside first mid)
      (hMore : Items ',' (Choice lexicon names) mid more close) (hClose : Mark ']' close rest) :
      Primary lexicon names text (.generic origin (first :: more)) rest
  | name {text rest : List Char} {path : String} {t : TypeExpr}
      (hPath : Spaced lexicon.path text path rest) (hName : NamePath names path t) :
      Primary lexicon names text t rest

end

/-- The whole text is a type, with white space around it. -/
def Derives (lexicon : Lexicon) (names : String → Option TypeExpr) (text : List Char)
    (t : TypeExpr) : Prop :=
  ∃ rest, Choice lexicon names text t rest ∧ Skips rest []

/-! Induction -/

theorem Items.imp {α : Type} {mark : Char} {r s : List Char → α → List Char → Prop}
    (h : ∀ text value rest, r text value rest → s text value rest) {text : List Char}
    {values : List α} {rest : List Char} (hItems : Items mark r text values rest) :
    Items mark s text values rest := by
  induction hItems with
  | nil text => exact .nil text
  | cons hMark hElement _ ih => exact .cons hMark (h _ _ _ hElement) ih

/-- Two relations that follow all rules of the grammar. -/
structure Closed (lexicon : Lexicon) (names : String → Option TypeExpr)
    (choice primary : List Char → TypeExpr → List Char → Prop) : Prop where
  single {text rest : List Char} {t : TypeExpr} (h : primary text t rest) : choice text t rest
  several {text mid rest : List Char} {first second : TypeExpr} {more : List TypeExpr}
    (hFirst : primary text first mid) (hMore : Items '|' primary mid (second :: more) rest) :
    choice text (.union (first :: second :: more)) rest
  ellipsis {text rest : List Char} (h : Skips text ('.' :: '.' :: '.' :: rest)) :
    primary text .ellipsis rest
  group {text inside close rest : List Char} {t : TypeExpr} (hOpen : Mark '(' text inside)
    (h : choice inside t close) (hClose : Mark ')' close rest) : primary text t rest
  literal {text after inside mid close rest : List Char} {path : String} {first : Constant}
    {more : List Constant} (hPath : Spaced lexicon.path text path after)
    (hForm : Spells path "Literal") (hOpen : Mark '[' after inside)
    (hFirst : Spaced lexicon.constant inside first mid)
    (hMore : Items ',' (Spaced lexicon.constant) mid more close) (hClose : Mark ']' close rest) :
    primary text (.literal (first :: more)) rest
  tagged {text after inside mid close rest : List Char} {path : String} {inner : TypeExpr}
    {tags : List String} (hPath : Spaced lexicon.path text path after)
    (hForm : Spells path "Annotated") (hOpen : Mark '[' after inside)
    (hInner : choice inside inner mid) (hTags : Items ',' (Spaced lexicon.tag) mid tags close)
    (hClose : Mark ']' close rest) : primary text (.tagged inner tags) rest
  optional {text after inside close rest : List Char} {path : String} {inner : TypeExpr}
    (hPath : Spaced lexicon.path text path after) (hForm : Spells path "Optional")
    (hOpen : Mark '[' after inside) (hInner : choice inside inner close)
    (hClose : Mark ']' close rest) : primary text (TypeExpr.optional inner) rest
  union {text after inside mid close rest : List Char} {path : String} {first : TypeExpr}
    {more : List TypeExpr} (hPath : Spaced lexicon.path text path after)
    (hForm : Spells path "Union") (hOpen : Mark '[' after inside) (hFirst : choice inside first mid)
    (hMore : Items ',' choice mid more close) (hClose : Mark ']' close rest) :
    primary text (.union (first :: more)) rest
  scalar {text rest : List Char} {path word : String} {t : TypeExpr}
    (hPath : Spaced lexicon.path text path rest) (hWord : Spells path word)
    (hTable : (word, t) ∈ scalars) : primary text t rest
  bare {text rest : List Char} {path : String} {origin : Origin}
    (hPath : Spaced lexicon.path text path rest) (hOrigin : ContainerPath path origin) :
    primary text (.generic origin []) rest
  generic {text after inside mid close rest : List Char} {path : String} {origin : Origin}
    {first : TypeExpr} {more : List TypeExpr} (hPath : Spaced lexicon.path text path after)
    (hOrigin : ContainerPath path origin) (hOpen : Mark '[' after inside)
    (hFirst : choice inside first mid) (hMore : Items ',' choice mid more close)
    (hClose : Mark ']' close rest) : primary text (.generic origin (first :: more)) rest
  name {text rest : List Char} {path : String} {t : TypeExpr}
    (hPath : Spaced lexicon.path text path rest) (hName : NamePath names path t) :
    primary text t rest

section

variable {lexicon : Lexicon} {names : String → Option TypeExpr}
  {choice primary : List Char → TypeExpr → List Char → Prop}

/-- The grammar is the least pair of relations that follow its rules. -/
theorem Closed.choice_of (h : Closed lexicon names choice primary) {text : List Char} {t : TypeExpr}
    {rest : List Char} (hChoice : Choice lexicon names text t rest) : choice text t rest :=
  @Choice.rec lexicon names (fun text t rest _ => choice text t rest)
    (fun text t rest _ => primary text t rest)
    (fun text types rest _ => Items '|' primary text types rest)
    (fun text types rest _ => Items ',' choice text types rest)
    (fun _ => h.single) (fun _ _ => h.several) h.ellipsis
    (fun hOpen _ hClose hInner => h.group hOpen hInner hClose) h.literal
    (fun hPath hForm hOpen _ hTags hClose hInner => h.tagged hPath hForm hOpen hInner hTags hClose)
    (fun hPath hForm hOpen _ hClose hInner => h.optional hPath hForm hOpen hInner hClose)
    (fun hPath hForm hOpen _ _ hClose hFirst hMore => h.union hPath hForm hOpen hFirst hMore hClose)
    h.scalar h.bare
    (fun hPath hOrigin hOpen _ _ hClose hFirst hMore =>
      h.generic hPath hOrigin hOpen hFirst hMore hClose)
    h.name .nil (fun hMark _ _ => .cons hMark) .nil (fun hMark _ _ => .cons hMark) _ _ _ hChoice

end

/-- One lexicon has all tokens of another one. -/
structure Lexicon.Within (lexicon lexicon' : Lexicon) : Prop where
  path (text : List Char) (path : String) (rest : List Char) (h : lexicon.path text path rest) :
    lexicon'.path text path rest
  constant (text : List Char) (value : Constant) (rest : List Char)
    (h : lexicon.constant text value rest) : lexicon'.constant text value rest
  tag (text : List Char) (tag : String) (rest : List Char) (h : lexicon.tag text tag rest) :
    lexicon'.tag text tag rest

theorem Spaced.imp {α : Type} {r s : List Char → α → List Char → Prop}
    (h : ∀ text value rest, r text value rest → s text value rest) (text : List Char) (value : α)
    (rest : List Char) (hSpaced : Spaced r text value rest) : Spaced s text value rest := by
  obtain ⟨start, hSkips, hToken⟩ := hSpaced
  exact ⟨start, hSkips, h _ _ _ hToken⟩

/-- With more tokens at least the same is derived. -/
theorem Derives.within {lexicon lexicon' : Lexicon} {names : String → Option TypeExpr}
    (h : lexicon.Within lexicon') {text : List Char} {t : TypeExpr}
    (hDerives : Derives lexicon names text t) : Derives lexicon' names text t := by
  obtain ⟨rest, hChoice, hEnd⟩ := hDerives
  have hPath := Spaced.imp h.path
  have hConstant := Spaced.imp h.constant
  have hClosed : Closed lexicon names (Choice lexicon' names) (Primary lexicon' names) := {
    single := .single
    several := .several
    ellipsis := .ellipsis
    group := .group
    literal := fun hName hForm hOpen hFirst hMore hClose =>
      .literal (hPath _ _ _ hName) hForm hOpen (hConstant _ _ _ hFirst) (hMore.imp hConstant) hClose
    tagged := fun hName hForm hOpen hInner hTags hClose =>
      .tagged (hPath _ _ _ hName) hForm hOpen hInner (hTags.imp (Spaced.imp h.tag)) hClose
    optional := fun hName => .optional (hPath _ _ _ hName)
    union := fun hName => .union (hPath _ _ _ hName)
    scalar := fun hName => .scalar (hPath _ _ _ hName)
    bare := fun hName => .bare (hPath _ _ _ hName)
    generic := fun hName => .generic (hPath _ _ _ hName)
    name := fun hName => .name (hPath _ _ _ hName) }
  exact ⟨rest, hClosed.choice_of hChoice, hEnd⟩

end ToolSchema.TypeExpr.Grammar
