import ToolSchema.Proofs.TypeExpr.Tokens

/-! A text is read as a type exactly if the grammar derives the type from it. -/
namespace ToolSchema.TypeExpr.Grammar

open Text (isBlank trimStart Parsed)

/-! Words -/

/-- What is left when a text begins with another one. -/
theorem dropStart?_eq_some_iff {start text rest : List Char} :
    dropStart? start text = some rest ↔ text = start ++ rest := by
  induction start generalizing text with
  | nil => simp [dropStart?]
  | cons c start ih =>
      cases text with
      | nil => simp [dropStart?]
      | cons d text =>
          by_cases hFirst : c = d
          · simp [dropStart?, hFirst, ih]
          · simp [dropStart?, hFirst, Ne.symm hFirst]

/-- A word behind the name of a module is found, provided that the word has no dot itself. -/
theorem unqualified_append {module word : String} (hModule : module ∈ modules)
    (hWord : '.' ∉ word.toList) : unqualified (module ++ word) = word := by
  have hFound : (knownModules.findSome? fun name =>
      dropStart? name.toList (module ++ word).toList) = some word.toList := by
    simp only [modules, List.mem_cons, List.not_mem_nil, or_false] at hModule
    rcases hModule with rfl | rfl | rfl <;> simp [knownModules, dropStart?]
  rw [unqualified, hFound]
  simp [hWord]

/-- All other paths are left as they are. -/
theorem unqualified_eq_self {path : String}
    (h : ∀ module ∈ modules, ∀ word, path = module ++ word → '.' ∈ word.toList) :
    unqualified path = path := by
  rw [unqualified]
  split
  · next rest hFound =>
    obtain ⟨module, hModule, hDrop⟩ := List.exists_of_findSome?_eq_some hFound
    have hPath : path = module ++ .ofList rest := by
      simp [← String.toList_inj, dropStart?_eq_some_iff.mp hDrop]
    have hDot := h module hModule _ hPath
    simp_all
  · rfl

/-- The two ways to spell a word, with a module or without, are what the reader removes modules
for. -/
theorem spells_iff {path word : String} : Spells path word ↔ unqualified path = word := by
  constructor
  · intro h
    cases h with
    | qualified hModule hWord => exact unqualified_append hModule hWord
    | plain h => exact unqualified_eq_self h
  · intro h
    subst h
    by_cases hModule : ∃ module ∈ modules, ∃ word, path = module ++ word ∧ '.' ∉ word.toList
    · obtain ⟨module, hModule, word, rfl, hWord⟩ := hModule
      rw [unqualified_append hModule hWord]
      exact .qualified hModule hWord
    · have hPlain : ∀ module ∈ modules, ∀ word, path = module ++ word → '.' ∈ word.toList := by
        intro module hm word he
        by_contra hWord
        exact hModule ⟨module, hm, word, he, hWord⟩
      rw [unqualified_eq_self hPlain]
      exact .plain hPlain

/-- The heads of the notation, one lemma for each kind: a scalar, a container, and a word that is
not built in. -/
theorem headOf_scalar {word : String} {t : TypeExpr} (h : (word, t) ∈ scalars) (base : Bool) :
    headOf word base = .scalar t := by
  simp only [scalars, List.mem_cons, Prod.mk.injEq, List.not_mem_nil, or_false] at h
  rcases h with ⟨rfl, rfl⟩ | ⟨rfl, rfl⟩ | ⟨rfl, rfl⟩ | ⟨rfl, rfl⟩ | ⟨rfl, rfl⟩ | ⟨rfl, rfl⟩ |
    ⟨rfl, rfl⟩ <;> rfl

/-- The word `Set` is the only one that the module matters for. -/
theorem ofWord?_container : ∀ entry ∈ containers, ∀ base,
    Origin.ofWord? entry.1 base =
      some (if entry.1 = "Set" ∧ base = true then .abstractSet else entry.2) := by
  decide

/-- Only the listed words are containers. -/
theorem ofWord?_eq_none {word : String} (h : word ∉ containers.map (·.1)) (base : Bool) :
    Origin.ofWord? word base = none := by
  have hNames : ∀ origin : Origin, origin.name ∈ containers.map (·.1) := by
    intro origin
    cases origin <;> decide
  unfold Origin.ofWord?
  split
  case h_7 =>
    apply List.find?_eq_none.mpr
    intro origin _ hName
    rw [← eq_of_beq hName] at h
    exact h (hNames origin)
  all_goals exact absurd (by decide) h

/-- Past the scalars, a word is a container or a declared name. -/
theorem headOf_of_not_scalar {word : String} (hForm : word ∉ forms)
    (hScalar : word ∉ scalars.map (·.1)) (base : Bool) :
    headOf word base = match Origin.ofWord? word base with
      | some origin => .container origin
      | none => .other := by
  unfold headOf
  split
  case h_12 => rfl
  case h_1 | h_2 | h_3 | h_4 => exact absurd (by decide) hForm
  all_goals exact absurd (by decide) hScalar

theorem headOf_container {word : String} {origin : Origin} (h : (word, origin) ∈ containers)
    (base : Bool) :
    headOf word base =
      .container (if word = "Set" ∧ base = true then .abstractSet else origin) := by
  have hOther : ∀ entry ∈ containers, entry.1 ∉ forms ∧ entry.1 ∉ scalars.map (·.1) := by decide
  obtain ⟨hForm, hScalar⟩ := hOther _ h
  rw [headOf_of_not_scalar hForm hScalar, ofWord?_container _ h]

theorem headOf_other {word : String} (h : ¬ BuiltIn word) (base : Bool) :
    headOf word base = .other := by
  simp only [BuiltIn, not_or] at h
  rw [headOf_of_not_scalar h.1 h.2.1, ofWord?_eq_none h.2.2]

/-- What the word of a path stands for. -/
def headOfPath (path : String) : Head := headOf (unqualified path) (isAbstractBase path)

/-- The word for sets means another container in one module, so the whole path counts there. -/
theorem isAbstractBase_iff {path : String} (h : Spells path "Set") :
    isAbstractBase path = true ↔ path = "collections.abc.Set" := by
  cases h with
  | qualified hModule _ =>
      simp only [modules, List.mem_cons, List.not_mem_nil, or_false] at hModule
      rcases hModule with rfl | rfl | rfl <;> decide
  | plain _ => decide

theorem headOfPath_form {path word : String} (h : Spells path word) :
    headOfPath path = headOf word (isAbstractBase path) := by
  rw [headOfPath, spells_iff.mp h]

/-- The container of a path, with the two meanings of the word for sets told apart. -/
theorem headOfPath_container {path : String} {origin : Origin} (h : ContainerPath path origin) :
    headOfPath path = .container origin := by
  cases h with
  | abstractSet => rfl
  | @word _ word _ hPath hWord hTable =>
      have hSet : ¬ (word = "Set" ∧ isAbstractBase path = true) := by
        intro h
        obtain ⟨rfl, hBase⟩ := h
        exact hPath ((isAbstractBase_iff hWord).mp hBase)
      rw [headOfPath_form hWord, headOf_container hTable, if_neg hSet]

/-- A path is one of the forms, a scalar or a container, or its word is not built
in. -/
theorem headOfPath_cases (path : String) :
    (Spells path "Literal" ∧ headOfPath path = .literal) ∨
      (Spells path "Annotated" ∧ headOfPath path = .tagged) ∨
      (Spells path "Optional" ∧ headOfPath path = .optional) ∨
      (Spells path "Union" ∧ headOfPath path = .union) ∨
      (∃ word t, Spells path word ∧ (word, t) ∈ scalars ∧ headOfPath path = .scalar t) ∨
      (∃ origin, ContainerPath path origin ∧ headOfPath path = .container origin) ∨
      (¬ BuiltIn (unqualified path) ∧ headOfPath path = .other) := by
  obtain ⟨word, hWord⟩ : ∃ word, Spells path word := ⟨_, spells_iff.mpr rfl⟩
  have hHead := headOfPath_form hWord
  rw [spells_iff.mp hWord]
  by_cases hBuiltIn : BuiltIn word
  · rcases hBuiltIn with hForm | hScalar | hContainer
    · simp only [forms, List.mem_cons, List.not_mem_nil, or_false] at hForm
      rcases hForm with rfl | rfl | rfl | rfl <;> simp [hWord, hHead, headOf]
    · obtain ⟨⟨_, t⟩, hTable, rfl⟩ := List.mem_map.mp hScalar
      have hKind := headOf_scalar hTable (isAbstractBase path)
      exact .inr (.inr (.inr (.inr (.inl ⟨_, t, hWord, hTable, hHead.trans hKind⟩))))
    · obtain ⟨⟨_, origin⟩, hTable, rfl⟩ := List.mem_map.mp hContainer
      have hOrigin : ∃ origin, ContainerPath path origin := by
        by_cases hPath : path = "collections.abc.Set"
        · subst hPath
          exact ⟨_, .abstractSet⟩
        · exact ⟨origin, .word hPath hWord hTable⟩
      obtain ⟨origin, hOrigin⟩ := hOrigin
      exact .inr (.inr (.inr (.inr (.inr (.inl ⟨origin, hOrigin, headOfPath_container hOrigin⟩)))))
  · simp [hBuiltIn, hHead, headOf_other hBuiltIn]

/-- A declared name is found only behind the built-in words. -/
theorem namePath_iff {names : Names} {path : String} {t : TypeExpr} :
    NamePath names path t ↔ ¬ BuiltIn (unqualified path) ∧ resolve names path = some t := by
  have hWord : Spells path (unqualified path) := spells_iff.mpr rfl
  constructor
  · intro h
    cases h with
    | path hWord hOther h => simp [spells_iff.mp hWord, hOther, resolve, h]
    | word hWord hOther hPath h => simp [spells_iff.mp hWord, hOther, resolve, hPath, h]
  · intro h
    obtain ⟨hOther, h⟩ := h
    rw [resolve, Option.or_eq_some_iff] at h
    rcases h with h | ⟨hPath, h⟩
    · exact .path hWord hOther h
    · exact .word hWord hOther hPath h

/-! Types -/

/-- Every reading consumes something. Induction on the length of the text rests on this. -/
theorem Reads.shorter {α : Type} {text : List Char} {reading : Reading (Parsed α text)} {value : α}
    {rest : List Char} (h : Reads reading value rest) : rest.length < text.length := by
  obtain ⟨p, _, _, rfl⟩ := h
  exact p.shorter

theorem shorter_of_mark {c : Char} {text after : List Char} (h : trimStart text = c :: after) :
    after.length < text.length := by
  have hTrim := Text.trimStart_length_le text
  rw [h] at hTrim
  exact hTrim

/-- Elements that are read are elements of the grammar, as far as this is known for
shorter texts. -/
theorem items_of_separated {α : Type} {mark : Char}
    {read : (text : List Char) → Reading (Parsed α text)} {element : List Char → α → List Char → Prop}
    {bound : Nat} (h : ∀ text, text.length < bound → ∀ value rest,
      Reads (read text) value rest → element text value rest)
    {text : List Char} {values : List α} {rest : List Char} (hBound : text.length ≤ bound)
    (hSeparated : Separated mark (fun text value rest => Reads (read text) value rest) text values
      rest) : Items mark element text values rest := by
  induction hSeparated with
  | done _ => exact .nil _
  | more hMark hElement _ ih =>
      have hAfter := shorter_of_mark hMark
      have hMid := Reads.shorter hElement
      exact .cons (skips_iff.mpr hMark) (h _ (by omega) _ _ hElement) (ih (by omega))

/-- A list is over, or a mark comes next. -/
theorem next_of_items {α : Type} {mark : Char} {element : List Char → α → List Char → Prop}
    {text : List Char} {values : List α} {rest : List Char}
    (h : Items mark element text values rest) :
    text = rest ∨ ∃ after, trimStart text = mark :: after := by
  cases h with
  | nil _ => exact .inl rfl
  | cons hMark _ _ => exact .inr ⟨_, skips_iff.mp hMark⟩

/-- Elements of the grammar are read, if no mark comes after the last one. -/
theorem separated_of_items {α : Type} {mark : Char}
    {element element' : List Char → α → List Char → Prop} {text : List Char} {values : List α}
    {rest : List Char} (hItems : Items mark element text values rest)
    (hRest : ∀ after, trimStart rest ≠ mark :: after)
    (h : ∀ text value mid, (mid = rest ∨ ∃ after, trimStart mid = mark :: after) →
      element text value mid → element' text value mid) :
    Separated mark element' text values rest := by
  induction hItems with
  | nil text => exact .done hRest
  | cons hMark hElement hMore ih =>
      exact .more (skips_iff.mp hMark) (h _ _ _ (next_of_items hMore) hElement) (ih hRest h)

section

variable {names : Names}

/-- Arguments in brackets: a first one, more behind commas, and the bracket at the end. Types are
read inside, which are derived by induction on the length. -/
theorem items_of_readArgs {after : List Char} {args : List TypeExpr} {rest : List Char}
    (hChoice : ∀ inside, inside.length < after.length → ∀ t rest,
      Reads (readUnion names inside) t rest → Choice tokens names inside t rest)
    (h : Reads (readArgs names after) args rest) :
    ∃ inside first mid more close, Mark '[' after inside ∧
      Choice tokens names inside first mid ∧ Items ',' (Choice tokens names) mid more close ∧
      Mark ']' close rest ∧ args = first :: more := by
  obtain ⟨inside, hOpen, first, mid, hFirst, more, close, hMore, _, hClose, rfl, rfl⟩ :=
    readArgs_iff.mp h
  have hInside := shorter_of_mark hOpen
  have hMid := Reads.shorter hFirst
  exact ⟨inside, first, mid, more, close, skips_iff.mpr hOpen, hChoice _ hInside _ _ hFirst,
    items_of_separated hChoice (by omega) hMore, skips_iff.mpr hClose, rfl⟩

/-- What is read behind a word is what the grammar allows behind it, one case for each head. -/
theorem primary_of_wordReads {text : List Char} {path : String} {after : List Char} {t : TypeExpr}
    {rest : List Char} (hPath : Spaced Name text path after)
    (hChoice : ∀ inside, inside.length < after.length → ∀ t rest,
      Reads (readUnion names inside) t rest → Choice tokens names inside t rest)
    (h : WordReads names path after t rest) : Primary tokens names text t rest := by
  have hWord : Spells path (unqualified path) := spells_iff.mpr rfl
  rw [WordReads] at h
  rcases headOfPath_cases path with ⟨hForm, hHead⟩ | ⟨hForm, hHead⟩ | ⟨hForm, hHead⟩ |
    ⟨hForm, hHead⟩ | ⟨word, type, hSpells, hTable, hHead⟩ | ⟨origin, hOrigin, hHead⟩ |
    ⟨hOther, hHead⟩ <;> rw [headOfPath] at hHead <;> rw [hHead] at h
  · obtain ⟨inside, hOpen, values, hValues, rfl⟩ := h
    obtain ⟨first, mid, hFirst, more, close, hMore, _, hClose, rfl, rfl⟩ :=
      readConstants_iff.mp hValues
    have hItems := items_of_separated (fun _ _ _ _ => readConstant_iff.mp) (Nat.le_refl _) hMore
    exact .literal hPath hForm (skips_iff.mpr hOpen) (readConstant_iff.mp hFirst) hItems
      (skips_iff.mpr hClose)
  · obtain ⟨inside, hOpen, inner, mid, hInner, tags, close, hTags, _, hClose, rfl, rfl⟩ := h
    have hItems := items_of_separated (fun _ _ _ _ => readTag_iff.mp) (Nat.le_refl _) hTags
    exact .tagged hPath hForm (skips_iff.mpr hOpen) (hChoice _ (shorter_of_mark hOpen) _ _ hInner)
      hItems (skips_iff.mpr hClose)
  · obtain ⟨inner, hArgs, rfl⟩ := h
    obtain ⟨inside, first, mid, more, close, hOpen, hFirst, hMore, hClose, hOne⟩ :=
      items_of_readArgs hChoice hArgs
    cases hOne
    cases hMore
    exact .optional hPath hForm hOpen hFirst hClose
  · obtain ⟨args, hArgs, rfl⟩ := h
    obtain ⟨inside, first, mid, more, close, hOpen, hFirst, hMore, hClose, rfl⟩ :=
      items_of_readArgs hChoice hArgs
    exact .union hPath hForm hOpen hFirst hMore hClose
  · obtain ⟨rfl, rfl⟩ := h
    exact .scalar hPath hSpells hTable
  · rcases h with ⟨_, args, hArgs, rfl⟩ | ⟨_, rfl, rfl⟩
    · obtain ⟨inside, first, mid, more, close, hOpen, hFirst, hMore, hClose, rfl⟩ :=
        items_of_readArgs hChoice hArgs
      exact .generic hPath hOrigin hOpen hFirst hMore hClose
    · exact .bare hPath hOrigin
  · obtain ⟨hName, rfl⟩ := h
    exact .name hPath (namePath_iff.mpr ⟨hOther, hName⟩)

/-- Whatever is read is derived. -/
theorem derives_of_reads (text : List Char) :
    (∀ t rest, Reads (readPrimary names text) t rest → Primary tokens names text t rest) ∧
      ∀ t rest, Reads (readUnion names text) t rest → Choice tokens names text t rest := by
  induction hLength : text.length using Nat.strongRecOn generalizing text with
  | ind n ih =>
      subst hLength
      have hPrimary : ∀ t rest, Reads (readPrimary names text) t rest →
          Primary tokens names text t rest := by
        intro t rest h
        by_cases hDots : ∃ after, trimStart text = '.' :: '.' :: '.' :: after
        · obtain ⟨after, hDots⟩ := hDots
          obtain ⟨rfl, rfl⟩ := (readPrimary_ellipsis_iff hDots t rest).mp h
          exact .ellipsis (skips_iff.mpr hDots)
        · by_cases hParen : ∃ inside, trimStart text = '(' :: inside
          · obtain ⟨inside, hParen⟩ := hParen
            obtain ⟨_, mid, hInner, _, hClose, rfl, rfl⟩ :=
              (readPrimary_paren_iff hParen t rest).mp h
            have hChoice := (ih _ (shorter_of_mark hParen) inside rfl).2 _ _ hInner
            exact .group (skips_iff.mpr hParen) hChoice (skips_iff.mpr hClose)
          · rw [not_exists] at hDots hParen
            obtain ⟨path, after, hPath, hWord⟩ := (readPrimary_word_iff hDots hParen t rest).mp h
            have hAfter := Reads.shorter hPath
            have hTrim := Text.trimStart_length_le text
            have hName : Spaced Name text path after := by
              rwa [spaced_iff, ← trimStart_trimStart, name_iff]
            exact primary_of_wordReads hName
              (fun inside hShort => (ih _ (by omega) inside rfl).2) hWord
      refine ⟨hPrimary, fun t rest h => ?_⟩
      obtain ⟨first, mid, hFirst, more, close, hMore, rfl, rfl⟩ := readUnion_iff.mp h
      have hItems := items_of_separated
        (fun inside hShort => (ih inside.length hShort inside rfl).1)
        (Nat.le_of_lt (Reads.shorter hFirst)) hMore
      cases more with
      | nil =>
          cases hItems
          exact .single (hPrimary _ _ hFirst)
      | cons second more => exact .several (hPrimary _ _ hFirst) hItems

/-- What comes next is not the character. -/
def NotNext (c : Char) (text : List Char) : Prop := ∀ after, trimStart text ≠ c :: after

/-- A text with one mark at its front does not have another one there. -/
theorem notNext_of_mark {c d : Char} (hOther : c ≠ d) {text after : List Char}
    (h : Mark d text after) : NotNext c text := by
  intro after' he
  exact hOther (List.cons.inj (he.symm.trans (skips_iff.mp h))).1

/-- Behind an element of a list comes the next mark or the end of the list. -/
theorem notNext_of_next {c mark close : Char} (hMark : c ≠ mark) (hClose : c ≠ close)
    {text rest after : List Char} (hRest : Mark close rest after)
    (h : text = rest ∨ ∃ after, trimStart text = mark :: after) : NotNext c text := by
  rcases h with rfl | ⟨after, hNext⟩
  · exact notNext_of_mark hClose hRest
  · exact notNext_of_mark hMark (skips_iff.mpr hNext)

/-- A type as the grammar derives it is read in front of everything that cannot
carry it on. -/
def ReadsChoice (names : Names) (text : List Char) (t : TypeExpr) (rest : List Char) : Prop :=
  NotNext '[' rest → NotNext '|' rest → Reads (readUnion names text) t rest

def ReadsPrimary (names : Names) (text : List Char) (t : TypeExpr) (rest : List Char) : Prop :=
  NotNext '[' rest → Reads (readPrimary names text) t rest

/-- A path is read as a word. It begins with a name, so none of the tests before that one
applies. -/
theorem readPrimary_of_wordReads {text : List Char} {path : String} {after : List Char}
    {t : TypeExpr} {rest : List Char} (hPath : Spaced Name text path after)
    (h : WordReads names path after t rest) : Reads (readPrimary names text) t rest := by
  rw [spaced_iff] at hPath
  have hStart (c : Char) (inside : List Char) (he : trimStart text = c :: inside) :
      c ≠ '.' ∧ c ≠ '(' := by
    rw [he] at hPath
    obtain ⟨hFirst, hChar⟩ := hPath.leads
    constructor
    · rintro rfl
      exact hPath.first hFirst
    · rintro rfl
      exact absurd hChar (by simp [IsNameChar]; decide)
  rw [readPrimary_word_iff]
  · refine ⟨path, after, name_iff.mp ?_, h⟩
    rwa [trimStart_trimStart]
  · intro inside he
    exact (hStart _ _ he).1 rfl
  · intro inside he
    exact (hStart _ _ he).2 rfl

/-- The first type of a list in brackets ends at the next mark, and the others are read behind
it. -/
theorem separated_of_choices {mid close rest : List Char} {more : List TypeExpr}
    (hMore : Items ',' (ReadsChoice names) mid more close) (hClose : Mark ']' close rest) :
    NotNext '[' mid ∧ NotNext '|' mid ∧
      Separated ',' (fun text t rest => Reads (readUnion names text) t rest) mid more close := by
  have hNext (mid : List Char) (h : mid = close ∨ ∃ after, trimStart mid = ',' :: after) :
      NotNext '[' mid ∧ NotNext '|' mid :=
    ⟨notNext_of_next (by decide) (by decide) hClose h,
      notNext_of_next (by decide) (by decide) hClose h⟩
  obtain ⟨hBracket, hBar⟩ := hNext mid (next_of_items hMore)
  refine ⟨hBracket, hBar, separated_of_items hMore (notNext_of_mark (by decide) hClose) ?_⟩
  intro text t mid hMid h
  exact h (hNext mid hMid).1 (hNext mid hMid).2

/-- Derived arguments are read: the reader comes by the same marks. -/
theorem readArgs_of_items {after inside mid close rest : List Char} {first : TypeExpr}
    {more : List TypeExpr} (hOpen : Mark '[' after inside)
    (hFirst : ReadsChoice names inside first mid)
    (hMore : Items ',' (ReadsChoice names) mid more close) (hClose : Mark ']' close rest) :
    Reads (readArgs names after) (first :: more) rest := by
  obtain ⟨hBracket, hBar, hSeparated⟩ := separated_of_choices hMore hClose
  exact readArgs_iff.mpr ⟨inside, skips_iff.mp hOpen, first, mid, hFirst hBracket hBar, more, close,
    hSeparated, rest, skips_iff.mp hClose, rfl, rfl⟩

/-- Derived tokens behind commas are read one after the other, up to the bracket. -/
theorem separated_of_tokens {α : Type} {token : List Char → α → List Char → Prop}
    {read : (text : List Char) → Reading (Parsed α text)}
    (hToken : ∀ text value rest, Spaced token text value rest → Reads (read text) value rest)
    {mid close rest : List Char} {values : List α} (hItems : Items ',' (Spaced token) mid values close)
    (hClose : Mark ']' close rest) :
    Separated ',' (fun text value rest => Reads (read text) value rest) mid values close :=
  separated_of_items hItems (notNext_of_mark (by decide) hClose) fun _ _ _ _ => hToken _ _ _

/-- What a word stands for decides how the text goes on. -/
theorem readPrimary_of_head {text : List Char} {path : String} {after : List Char} {t : TypeExpr}
    {rest : List Char} {head : Head} (hPath : Spaced Name text path after)
    (hHead : headOfPath path = head)
    (h : headOf (unqualified path) (isAbstractBase path) = head → WordReads names path after t rest) :
    Reads (readPrimary names text) t rest :=
  readPrimary_of_wordReads hPath (h hHead)

/-- Reading follows all rules of the grammar. -/
theorem closed_reads (names : Names) :
    Closed tokens names (ReadsChoice names) (ReadsPrimary names) where
  single h hBracket hBar := readUnion_iff.mpr ⟨_, _, h hBracket, [], _, .done hBar, rfl, rfl⟩
  several {_ _ rest} {_ _ _} hFirst hMore hBracket hBar := by
    have hNext (mid : List Char) (h : mid = rest ∨ ∃ after, trimStart mid = '|' :: after) :
        NotNext '[' mid := by
      rcases h with rfl | ⟨after, hNext⟩
      · exact hBracket
      · exact notNext_of_mark (by decide) (skips_iff.mpr hNext)
    exact readUnion_iff.mpr ⟨_, _, hFirst (hNext _ (next_of_items hMore)), _, _,
      separated_of_items hMore hBar fun _ _ _ hMid h => h (hNext _ hMid), rfl, rfl⟩
  ellipsis h _ := (readPrimary_ellipsis_iff (skips_iff.mp h) _ _).mpr ⟨rfl, rfl⟩
  group hOpen h hClose _ := by
    refine (readPrimary_paren_iff (skips_iff.mp hOpen) _ _).mpr ⟨_, _, h ?_ ?_, _,
      skips_iff.mp hClose, rfl, rfl⟩ <;> exact notNext_of_mark (by decide) hClose
  literal hPath hForm hOpen hFirst hMore hClose _ := by
    apply readPrimary_of_head hPath (headOfPath_form hForm)
    intro hHead
    rw [WordReads, hHead]
    exact ⟨_, skips_iff.mp hOpen, _, readConstants_iff.mpr ⟨_, _, readConstant_iff.mpr hFirst, _, _,
      separated_of_tokens (fun _ _ _ => readConstant_iff.mpr) hMore hClose, _, skips_iff.mp hClose,
      rfl, rfl⟩, rfl⟩
  tagged hPath hForm hOpen hInner hTags hClose _ := by
    apply readPrimary_of_head hPath (headOfPath_form hForm)
    intro hHead
    rw [WordReads, hHead]
    have hNext := next_of_items hTags
    exact ⟨_, skips_iff.mp hOpen, _, _,
      hInner (notNext_of_next (by decide) (by decide) hClose hNext)
        (notNext_of_next (by decide) (by decide) hClose hNext), _, _,
      separated_of_tokens (fun _ _ _ => readTag_iff.mpr) hTags hClose, _, skips_iff.mp hClose,
      rfl, rfl⟩
  optional hPath hForm hOpen hInner hClose _ := by
    apply readPrimary_of_head hPath (headOfPath_form hForm)
    intro hHead
    rw [WordReads, hHead]
    exact ⟨_, readArgs_of_items hOpen hInner (.nil _) hClose, rfl⟩
  union hPath hForm hOpen hFirst hMore hClose _ := by
    apply readPrimary_of_head hPath (headOfPath_form hForm)
    intro hHead
    rw [WordReads, hHead]
    exact ⟨_, readArgs_of_items hOpen hFirst hMore hClose, rfl⟩
  scalar hPath hWord hTable _ := by
    apply readPrimary_of_head hPath ((headOfPath_form hWord).trans (headOf_scalar hTable _))
    intro hHead
    rw [WordReads, hHead]
    exact ⟨rfl, rfl⟩
  bare hPath hOrigin hBracket := by
    apply readPrimary_of_head hPath (headOfPath_container hOrigin)
    intro hHead
    rw [WordReads, hHead]
    exact .inr ⟨hBracket, rfl, rfl⟩
  generic hPath hOrigin hOpen hFirst hMore hClose _ := by
    apply readPrimary_of_head hPath (headOfPath_container hOrigin)
    intro hHead
    rw [WordReads, hHead]
    exact .inl ⟨⟨_, skips_iff.mp hOpen⟩, _, readArgs_of_items hOpen hFirst hMore hClose, rfl⟩
  name hPath hName _ := by
    obtain ⟨hOther, hResolve⟩ := namePath_iff.mp hName
    apply readPrimary_of_head hPath (headOf_other hOther _)
    intro hHead
    rw [WordReads, hHead]
    exact ⟨hResolve, rfl⟩

/-- Soundness: the reader makes nothing up. -/
theorem derives_of_parse {input : String} {t : TypeExpr} (h : parse names input = .ok t) :
    Derives tokens names input.toList t := by
  obtain ⟨rest, hRead, hEnd⟩ := parse_eq_ok_iff.mp h
  exact ⟨rest, (derives_of_reads _).2 _ _ hRead, skips_iff.mpr hEnd⟩

/-- Completeness: the reader refuses nothing that the grammar allows. -/
theorem parse_of_derives {input : String} {t : TypeExpr}
    (h : Derives tokens names input.toList t) : parse names input = .ok t := by
  obtain ⟨rest, hChoice, hEnd⟩ := h
  have hNothing (c : Char) : NotNext c rest := by
    intro after he
    cases he.symm.trans (skips_iff.mp hEnd)
  exact parse_eq_ok_iff.mpr ⟨rest, (closed_reads names).choice_of hChoice (hNothing _) (hNothing _),
    skips_iff.mp hEnd⟩

end

/-- A text is read as a type exactly if the grammar derives the type from it. -/
theorem parse_eq_ok_iff_derives (names : Names) (input : String) (t : TypeExpr) :
    parse names input = .ok t ↔ Derives tokens names input.toList t := by
  constructor
  · intro h
    exact derives_of_parse h
  · intro h
    exact parse_of_derives h

/-- The tokens if numbers and names were tried wherever they fit. -/
def looseTokens : Lexicon := ⟨Name, ConstantText NumberText, TagText NumberText Name⟩

/-- The first character does matter: a number that begins with a dot is not
read. -/
theorem leading_dot_refused : ¬ ∀ names input t,
    parse names input = .ok t ↔ Derives looseTokens names input.toList t := by
  intro h
  have hFails (t : TypeExpr) : parse noNames "Literal[.5]" ≠ .ok t := by
    intro hRead
    obtain ⟨_, hUnion, _⟩ := parse_eq_ok_iff.mp hRead
    obtain ⟨_, _, hPrimary, _⟩ := readUnion_iff.mp hUnion
    have hStart : (trimStart "Literal[.5]".toList).head? = some 'L' := by decide
    obtain ⟨path, after, hPath, hWord⟩ := (readPrimary_word_iff
      (fun _ hDots => absurd (hStart.symm.trans (congrArg List.head? hDots)) (by simp))
      (fun _ hParen => absurd (hStart.symm.trans (congrArg List.head? hParen)) (by simp)) _ _).mp
        hPrimary
    obtain ⟨_, hName, hAfter⟩ := readName_iff.mp hPath
    obtain ⟨rfl, rfl⟩ : path = "Literal" ∧ after = "[.5]".toList :=
      ⟨hName.trans (by decide), hAfter.trans (by decide)⟩
    rw [WordReads, show headOf (unqualified "Literal") (isAbstractBase "Literal") = .literal from rfl]
      at hWord
    obtain ⟨inside, hOpen, _, hConstants, _⟩ := hWord
    cases hOpen
    obtain ⟨_, _, hConstant, _⟩ := readConstants_iff.mp hConstants
    obtain ⟨_, _, hConstant, _⟩ :=
      (readConstant_word_iff rfl (by decide) (by decide)).mp hConstant
    -- What is not a number would have to be a name.
    exact (readName_iff.mp hConstant).1 (.inr (.inl (by decide)))
  obtain ⟨x, hFloat⟩ : ∃ x, Number.binary64? ['.', '5'] = some x :=
    Option.isSome_iff_exists.mp (by decide)
  have hRun : Run IsNumberChar ".5]".toList ['.', '5'] [']'] := numberRun_iff.mpr (by decide)
  have hNumber : NumberText ".5]".toList (.float x) [']'] :=
    .plain hRun (.float (by decide) hFloat)
  have hSkips (c : Char) (text : List Char) (hBlank : isBlank c = false) :
      Skips (c :: text) (c :: text) := skips_iff.mpr (List.dropWhile_cons_of_neg (by simp [hBlank]))
  have hPath : Name "Literal[.5]".toList "Literal" "[.5]".toList :=
    ⟨nameRun_iff.mpr (by decide), by decide, by decide, by decide⟩
  have hPrimary : Primary looseTokens noNames "Literal[.5]".toList (.literal [.float x]) [] :=
    .literal ⟨_, hSkips _ _ (by decide), hPath⟩ (spells_iff.mpr (by decide))
      (hSkips _ _ (by decide)) ⟨_, hSkips _ _ (by decide), .number hNumber⟩ (.nil _)
      (hSkips _ _ (by decide))
  exact hFails _ ((h noNames "Literal[.5]" _).mpr ⟨[], .single hPrimary, skips_iff.mpr rfl⟩)

end ToolSchema.TypeExpr.Grammar
