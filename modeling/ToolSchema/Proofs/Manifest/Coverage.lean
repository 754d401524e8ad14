import ToolSchema.Proofs.Manifest.Words

/-! The scan of a text covers the names that reading it looks up: every name that
is looked up is found, and of declared names nothing else is, unless one stands
for a constant, a tag or a module. -/
namespace ToolSchema

mutual

/-- The names in a type that stand for other types. -/
def TypeExpr.mentions : TypeExpr → List String
  | .alias name _ => [name]
  | .tagged inner _ => mentions inner
  | .union arms => mentionsAll arms
  | .generic _ args => mentionsAll args
  | _ => []

def TypeExpr.mentionsAll : List TypeExpr → List String
  | [] => []
  | t :: more => mentions t ++ mentionsAll more

end

namespace Manifest

open TypeExpr (Stops isQuote Names)
open TypeExpr.Grammar

/-! Lexicons -/

/-- The scan can follow the tokens of the lexicon, and of the given names it finds
none in modules, constants and tags. -/
structure Followed (lexicon : Lexicon) (declared : List String) : Prop where
  path {text : List Char} {path : String} {rest : List Char} (h : lexicon.path text path rest) :
    Name text path rest
  modules {text : List Char} {module word : String} {rest : List Char}
    (h : lexicon.path text (module ++ word) rest) (hModule : module ∈ modules) :
    ∀ name ∈ identifiers module.toList, name ∉ declared
  constant : Quiet declared lexicon.constant
  tag : Quiet declared lexicon.tag

/-- The tokens of the notation, with no names to be careful about. -/
theorem followed_tokens : Followed tokens [] where
  path h := h
  modules _ _ _ _ := List.not_mem_nil
  constant _ _ _ h hRest := by
    rcases constant_cases h with h | ⟨token, h⟩
    · exact ⟨_, h, by simp⟩
    · exact ⟨_, h.finds hRest, by simp⟩
  tag _ _ _ h hRest := by
    rcases tag_cases h with h | ⟨token, h⟩
    · exact ⟨_, h, by simp⟩
    · exact ⟨_, h.finds hRest, by simp⟩

/-- The tokens that avoid declared names, with these names. -/
theorem followed_avoiding (declared : List String) : Followed (avoiding tokens declared) declared where
  path h := h.1
  modules h hModule := h.2 _ hModule _ rfl
  constant _ _ _ h hRest := quiet_of_bare h.2 hRest (constant_cases h.1)
  tag _ _ _ h hRest := quiet_of_bare h.2 hRest (tag_cases h.1)

section

variable {lexicon : Lexicon} {declared : List String}

theorem finds_path (hLexicon : Followed lexicon declared) {text : List Char} {path : String}
    {rest : List Char} (h : Spaced lexicon.path text path rest) :
    Finds text (identifiers path.toList) rest := by
  obtain ⟨start, hSkips, hPath⟩ := h
  exact (finds_skips hSkips).behind (finds_name (hLexicon.path hPath))

/-- The pieces of a path behind a module are those of the module and those of the word. -/
theorem identifiers_module {module : String} (h : module ∈ modules) (word : List Char) :
    identifiers (module.toList ++ word) = identifiers module.toList ++ identifiers word := by
  obtain ⟨base, hBase⟩ : ∃ base, module.toList = base ++ ['.'] := by
    simp only [modules, List.mem_cons, List.not_mem_nil, or_false] at h
    rcases h with rfl | rfl | rfl
    · exact ⟨"typing".toList, rfl⟩
    · exact ⟨"collections.abc".toList, rfl⟩
    · exact ⟨"builtins".toList, rfl⟩
  have hDot : isNamePart '.' = false := by decide
  rw [hBase, List.append_assoc, List.singleton_append, identifiers_append_cons hDot,
    identifiers_append_cons hDot]
  exact congrArg (· ++ identifiers word) (List.append_nil _).symm

/-- What is found in a path is its word or belongs to its module. -/
theorem identifiers_of_spells {path word : String} (h : Spells path word) :
    identifiers path.toList = identifiers word.toList ∨ ∃ module ∈ modules, path = module ++ word ∧
      identifiers path.toList = identifiers module.toList ++ identifiers word.toList := by
  cases h with
  | plain _ => exact .inl rfl
  | @qualified module word hModule _ =>
      exact .inr ⟨module, hModule, rfl, by rw [String.toList_append, identifiers_module hModule]⟩

theorem mem_identifiers_of_spells {path word : String} (h : Spells path word)
    (hWord : isIdentifier word = true) : word ∈ identifiers path.toList := by
  rcases identifiers_of_spells h with hPath | ⟨module, _, _, hPath⟩ <;>
    simp [hPath, identifiers_self hWord]

theorem isMark_comma : IsMark ',' := ⟨by decide, by decide⟩

theorem isMark_close : IsMark ']' := ⟨by decide, by decide⟩

/-- A name does not go on behind an element of a list in brackets. -/
theorem stops_of_items {α : Type} {element : List Char → α → List Char → Prop}
    {text close rest : List Char} {values : List α} (hItems : Items ',' element text values close)
    (hClose : Mark ']' close rest) : Stops isNamePart text := by
  rcases next_of_items hItems with rfl | ⟨after, hNext⟩
  · exact stops_of_mark isMark_close hClose
  · exact stops_of_mark isMark_comma (skips_iff.mpr hNext)

/-- A token adds no declared name. No name goes on behind it, since a mark stands there. -/
theorem finds_token {α : Type} {token : List Char → α → List Char → Prop}
    (hToken : Quiet declared token) {text rest : List Char} {value : α}
    (h : Spaced token text value rest) (hRest : Stops isNamePart rest) :
    ∃ found, Finds text found rest ∧ ∀ name ∈ found, name ∉ declared := by
  obtain ⟨start, hSkips, h⟩ := h
  obtain ⟨found, hFinds, hQuiet⟩ := hToken _ _ _ h hRest
  exact ⟨found, (finds_skips hSkips).behind hFinds, hQuiet⟩

/-- Tokens behind commas, up to a closing bracket. -/
theorem finds_tokens {α : Type} {token : List Char → α → List Char → Prop}
    (hToken : Quiet declared token) {text close rest : List Char} {values : List α}
    (hItems : Items ',' (Spaced token) text values close) (hClose : Mark ']' close rest) :
    ∃ found, Finds text found close ∧ ∀ name ∈ found, name ∉ declared := by
  induction hItems with
  | nil text => exact ⟨[], .refl text, by simp⟩
  | cons hMark hElement hMore ih =>
      obtain ⟨first, hFirst, hQuiet⟩ := finds_token hToken hElement (stops_of_items hMore hClose)
      obtain ⟨more, hFinds, hQuiet'⟩ := ih hClose
      refine ⟨first ++ more, (finds_mark isMark_comma hMark).behind (hFirst.append hFinds), ?_⟩
      exact List.forall_mem_append.mpr ⟨hQuiet, hQuiet'⟩

/-- Everything that is mentioned is found, and of the declared names nothing else
is. -/
structure Accounts (declared found mentioned : List String) : Prop where
  covers : ∀ name ∈ mentioned, name ∈ found
  only : ∀ name ∈ found, name ∈ declared → name ∈ mentioned

/-- Two accounts of neighbouring parts make one. -/
theorem Accounts.append {first second mentioned mentioned' : List String}
    (h : Accounts declared first mentioned) (h' : Accounts declared second mentioned') :
    Accounts declared (first ++ second) (mentioned ++ mentioned') where
  covers name hName := by
    rcases List.mem_append.mp hName with hm | hm
    · exact List.mem_append_left _ (h.covers name hm)
    · exact List.mem_append_right _ (h'.covers name hm)
  only name hName hDeclared := by
    rcases List.mem_append.mp hName with hm | hm
    · exact List.mem_append_left _ (h.only name hm hDeclared)
    · exact List.mem_append_right _ (h'.only name hm hDeclared)

/-- Nothing is mentioned where no declared name is found. -/
theorem accounts_nil {found : List String} (h : ∀ name ∈ found, name ∉ declared) :
    Accounts declared found [] where
  covers _ hName := absurd hName List.not_mem_nil
  only name hName hDeclared := absurd hDeclared (h name hName)

/-- Up to the rest of the text the scan finds what is mentioned. -/
def Mentions (declared : List String) (text : List Char) (mentioned : List String)
    (rest : List Char) : Prop :=
  ∃ found, Finds text found rest ∧ Accounts declared found mentioned

theorem Mentions.append {text mid rest : List Char} {mentioned mentioned' : List String}
    (h : Mentions declared text mentioned mid) (h' : Mentions declared mid mentioned' rest) :
    Mentions declared text (mentioned ++ mentioned') rest := by
  obtain ⟨found, hFinds, hAccounts⟩ := h
  obtain ⟨found', hFinds', hAccounts'⟩ := h'
  exact ⟨_, hFinds.append hFinds', hAccounts.append hAccounts'⟩

theorem mentions_nil {text rest : List Char}
    (h : ∃ found, Finds text found rest ∧ ∀ name ∈ found, name ∉ declared) :
    Mentions declared text [] rest := by
  obtain ⟨found, hFinds, hQuiet⟩ := h
  exact ⟨found, hFinds, accounts_nil hQuiet⟩

theorem mentions_mark {c : Char} (hMark : IsMark c) {text rest : List Char} (h : Mark c text rest) :
    Mentions declared text [] rest :=
  mentions_nil ⟨[], finds_mark hMark h, by simp⟩

/-- The mentions of elements behind marks, by induction over the elements. -/
theorem mentions_items {mark : Char} (hMark : IsMark mark) {text rest : List Char}
    {types : List TypeExpr}
    (hItems : Items mark (fun text t rest => Mentions declared text t.mentions rest) text types
      rest) : Mentions declared text (TypeExpr.mentionsAll types) rest := by
  induction hItems with
  | nil text => exact ⟨[], .refl text, accounts_nil (by simp)⟩
  | cons hNext hElement _ ih => exact (mentions_mark hMark hNext).append (hElement.append ih)

/-- A name in a declared type stands for itself, and the names of classes are not
declared. -/
structure StandsIn (names : Names) (declared : List String) : Prop where
  identifier {name : String} {t : TypeExpr} (h : names name = some t) : isIdentifier name = true
  itself {name : String} {t : TypeExpr} (h : names name = some t) :
    t.mentions = [name] ∨ (t.mentions = [] ∧ name ∉ declared)
  builtIn {word : String} (h : BuiltIn word) : word ∉ declared

/-- All built-in words are identifiers. -/
theorem isIdentifier_of_builtIn {word : String} (h : BuiltIn word) : isIdentifier word = true := by
  have hForms : ∀ word ∈ forms, isIdentifier word = true := by decide
  have hScalars : ∀ word ∈ scalars.map (·.1), isIdentifier word = true := by decide
  have hContainers : ∀ word ∈ containers.map (·.1), isIdentifier word = true := by decide
  rcases h with h | h | h
  · exact hForms word h
  · exact hScalars word h
  · exact hContainers word h

/-- The path of a container is a built-in word, with or without a module. -/
theorem builtIn_of_containerPath {path : String} {origin : Origin} (h : ContainerPath path origin) :
    ∃ word, Spells path word ∧ BuiltIn word := by
  cases h with
  | abstractSet =>
      exact ⟨"Set", spells_iff.mpr (by decide), .inr (.inr (by decide))⟩
  | word _ hWord hTable => exact ⟨_, hWord, .inr (.inr (List.mem_map_of_mem hTable))⟩

section

variable {names : Names} (hLexicon : Followed lexicon declared) (hNames : StandsIn names declared)

include hLexicon

/-- Of what is found in a path only the word can be declared. -/
theorem eq_word_of_declared {text : List Char} {path word : String} {rest : List Char}
    (hPath : Spaced lexicon.path text path rest) (hWord : Spells path word)
    (hIdentifier : isIdentifier word = true) {name : String} (h : name ∈ identifiers path.toList)
    (hDeclared : name ∈ declared) : name = word := by
  rcases identifiers_of_spells hWord with hFound | ⟨module, hModule, rfl, hFound⟩
  · simpa [hFound, identifiers_self hIdentifier] using h
  · obtain ⟨_, _, hPath⟩ := hPath
    rw [hFound, identifiers_self hIdentifier, List.mem_append, List.mem_singleton] at h
    exact h.resolve_left fun hm => hLexicon.modules hPath hModule name hm hDeclared

include hNames

/-- A built-in word is not a declared name, so its path mentions nothing. -/
theorem mentions_builtIn {text : List Char} {path word : String} {rest : List Char}
    (hPath : Spaced lexicon.path text path rest) (hWord : Spells path word)
    (hBuiltIn : BuiltIn word) : Mentions declared text [] rest := by
  refine mentions_nil ⟨_, finds_path hLexicon hPath, fun name hName hDeclared => ?_⟩
  have hSame := eq_word_of_declared hLexicon hPath hWord (isIdentifier_of_builtIn hBuiltIn) hName
    hDeclared
  exact hNames.builtIn hBuiltIn (hSame ▸ hDeclared)

theorem mentions_form {text : List Char} {path word : String} {rest : List Char}
    (hPath : Spaced lexicon.path text path rest) (hWord : Spells path word) (hForm : word ∈ forms) :
    Mentions declared text [] rest :=
  mentions_builtIn hLexicon hNames hPath hWord (.inl hForm)

theorem mentions_container {text : List Char} {path : String} {origin : Origin} {rest : List Char}
    (hPath : Spaced lexicon.path text path rest) (hOrigin : ContainerPath path origin) :
    Mentions declared text [] rest := by
  obtain ⟨word, hWord, hBuiltIn⟩ := builtIn_of_containerPath hOrigin
  exact mentions_builtIn hLexicon hNames hPath hWord hBuiltIn

/-- A declared name mentions itself, and any other name nothing. A module before it adds nothing
either. -/
theorem mentions_name {text : List Char} {path : String} {t : TypeExpr} {rest : List Char}
    (hPath : Spaced lexicon.path text path rest) (hName : NamePath names path t) :
    Mentions declared text t.mentions rest := by
  obtain ⟨key, hKey, hFound, hOnly⟩ : ∃ key, names key = some t ∧
      key ∈ identifiers path.toList ∧
      ∀ name ∈ identifiers path.toList, name ∈ declared → name = key := by
    cases hName with
    | path _ _ h =>
        have hFound := identifiers_self (hNames.identifier h)
        exact ⟨path, h, by simp [hFound], by simp [hFound]⟩
    | word hWord _ _ h =>
        have hIdentifier := hNames.identifier h
        exact ⟨_, h, mem_identifiers_of_spells hWord hIdentifier, fun name =>
          eq_word_of_declared hLexicon hPath hWord hIdentifier⟩
  refine ⟨_, finds_path hLexicon hPath, ?_⟩
  rcases hNames.itself hKey with hItself | ⟨hNothing, hOther⟩
  · rw [hItself]
    exact ⟨by simpa using hFound, fun name h hDeclared => List.mem_singleton.mpr
      (hOnly name h hDeclared)⟩
  · rw [hNothing]
    exact accounts_nil fun name h hDeclared => hOther (hOnly name h hDeclared ▸ hDeclared)

omit hLexicon hNames in
/-- What stands in brackets is all that such a type mentions. -/
theorem mentions_brackets {text after inside mid close rest : List Char}
    {mentioned mentioned' : List String} (hHead : Mentions declared text [] after)
    (hOpen : Mark '[' after inside) (hFirst : Mentions declared inside mentioned mid)
    (hMore : Mentions declared mid mentioned' close) (hClose : Mark ']' close rest) :
    Mentions declared text (mentioned ++ mentioned') rest := by
  have hStart := hHead.append (mentions_mark ⟨by decide, by decide⟩ hOpen)
  simpa using hStart.append (hFirst.append (hMore.append (mentions_mark isMark_close hClose)))

/-- Reading mentions what the scan finds. -/
theorem closed_mentions :
    Closed lexicon names (fun text t rest => Mentions declared text t.mentions rest)
      (fun text t rest => Mentions declared text t.mentions rest) where
  single h := h
  several hFirst hMore := hFirst.append (mentions_items ⟨by decide, by decide⟩ hMore)
  ellipsis h := mentions_nil ⟨[], finds_ellipsis h, by simp⟩
  group hOpen h hClose := by
    have hInside := (mentions_mark ⟨by decide, by decide⟩ hOpen).append h
    simpa using hInside.append (mentions_mark ⟨by decide, by decide⟩ hClose)
  literal hPath hForm hOpen hFirst hMore hClose :=
    mentions_brackets (mentions_form hLexicon hNames hPath hForm (by decide)) hOpen
      (mentions_nil (finds_token hLexicon.constant hFirst (stops_of_items hMore hClose)))
      (mentions_nil (finds_tokens hLexicon.constant hMore hClose)) hClose
  tagged hPath hForm hOpen hInner hTags hClose := by
    have hHead := mentions_form hLexicon hNames hPath hForm (by decide)
    have hTags := mentions_nil (finds_tokens hLexicon.tag hTags hClose)
    have hWhole := mentions_brackets hHead hOpen hInner hTags hClose
    rwa [List.append_nil] at hWhole
  optional hPath hForm hOpen hInner hClose :=
    mentions_brackets (mentions_form hLexicon hNames hPath hForm (by decide)) hOpen hInner
      (mentions_nil ⟨[], .refl _, by simp⟩) hClose
  union hPath hForm hOpen hFirst hMore hClose :=
    mentions_brackets (mentions_form hLexicon hNames hPath hForm (by decide)) hOpen hFirst
      (mentions_items isMark_comma hMore) hClose
  scalar hPath hWord hTable := by
    have hNothing : ∀ entry ∈ scalars, entry.2.mentions = [] := by decide
    rw [hNothing _ hTable]
    exact mentions_builtIn hLexicon hNames hPath hWord (.inr (.inl (List.mem_map_of_mem hTable)))
  bare hPath hOrigin := mentions_container hLexicon hNames hPath hOrigin
  generic hPath hOrigin hOpen hFirst hMore hClose :=
    mentions_brackets (mentions_container hLexicon hNames hPath hOrigin) hOpen hFirst
      (mentions_items isMark_comma hMore) hClose
  name hPath hName := mentions_name hLexicon hNames hPath hName

/-- In a text with whole lines the scan finds the names that its type mentions. -/
theorem accounts_of_derives {text : List Char} {t : TypeExpr}
    (h : Derives lexicon names text t) (hLines : Unbroken text) :
    Accounts declared (words text) t.mentions := by
  obtain ⟨rest, hChoice, hEnd⟩ := h
  obtain ⟨found, hFinds, hAccounts⟩ := (closed_mentions hLexicon hNames).choice_of hChoice
  have hNothing : words text = found := by
    rw [(hFinds.before (finds_skips hEnd)).words hLines, words_nil, List.append_nil]
  rwa [hNothing]

end

end

end Manifest

end ToolSchema
