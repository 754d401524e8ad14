import ToolSchema.Manifest.References
import ToolSchema.Proofs.TypeExpr.Derivation

/-! What the scan for names makes of the tokens of a type. Names come out in
pieces without dots, numbers may contain names, and strings come out as nothing,
as long as no line ends behind a backslash. -/
namespace ToolSchema.Manifest

open TypeExpr (Stops isQuote)
open TypeExpr.Grammar
open Text (isBlank)

/-- The names in a text outside of quotes. -/
def words (text : List Char) : List String := identifiers (blankQuotes text)

theorem references_eq (declared : List String) (text : String) :
    references declared text = (words text.toList).filter declared.contains := rfl

/-! Runs of name characters -/

/-- Letters, and characters of names, by their numbers. -/
theorem isAlpha_iff {c : Char} : c.isAlpha = true ↔
    (65 ≤ c.toNat ∧ c.toNat ≤ 90) ∨ (97 ≤ c.toNat ∧ c.toNat ≤ 122) := by
  change (decide (65 ≤ c.val ∧ c.val ≤ 90) ||
    (decide (97 ≤ c.val) && decide (c.val ≤ 122))) = true ↔ _
  rw [Bool.or_eq_true, Bool.and_eq_true, decide_eq_true_eq, decide_eq_true_eq, decide_eq_true_eq]
  exact Iff.rfl

theorem isNamePart_iff {c : Char} :
    isNamePart c = true ↔ (48 ≤ c.toNat ∧ c.toNat ≤ 57) ∨ (65 ≤ c.toNat ∧ c.toNat ≤ 90) ∨
      (97 ≤ c.toNat ∧ c.toNat ≤ 122) ∨ c.toNat = 95 := by
  have hUnderscore : c = '_' ↔ c.toNat = 95 := by
    rw [← Char.toNat_inj]
    rfl
  rw [isNamePart, Char.isAlphanum, Bool.or_eq_true, Bool.or_eq_true, isAlpha_iff,
    Char.isDigit_iff_toNat, beq_iff_eq, hUnderscore]
  change (_ ∨ (48 ≤ c.toNat ∧ c.toNat ≤ 57)) ∨ c.toNat = 95 ↔ _
  omega

/-- No name begins with a digit. -/
theorem isDigit_of_isNameStart {c : Char} (h : isNameStart c = true) : c.isDigit = false := by
  rw [isNameStart, Bool.or_eq_true, isAlpha_iff, beq_iff_eq] at h
  rw [Bool.eq_false_iff]
  intro hDigit
  have hRange := Char.isDigit_iff_toNat.mp hDigit
  rcases h with h | rfl
  · change 48 ≤ c.toNat ∧ c.toNat ≤ 57 at hRange
    omega
  · exact absurd hDigit (by decide)

/-- There is always a first run, which may be empty. -/
theorem nameRuns_ne_nil (text : List Char) : nameRuns text ≠ [] := by
  cases text with
  | nil => exact List.cons_ne_nil _ _
  | cons c text =>
      rw [nameRuns]
      split <;> exact List.cons_ne_nil _ _

/-- A character that is not of a name separates the runs before it from those behind it. -/
theorem nameRuns_append_cons {c : Char} (h : isNamePart c = false) (front back : List Char) :
    nameRuns (front ++ c :: back) = nameRuns front ++ nameRuns back := by
  induction front with
  | nil => simp [nameRuns, h]
  | cons first front ih =>
      obtain ⟨run, runs, hRuns⟩ := List.exists_cons_of_ne_nil (nameRuns_ne_nil front)
      rw [List.cons_append, nameRuns, nameRuns, ih, hRuns]
      cases isNamePart first <;> rfl

theorem nameRuns_of_parts {text : List Char} (h : ∀ c ∈ text, isNamePart c = true) :
    nameRuns text = [text] := by
  induction text with
  | nil => rfl
  | cons c text ih =>
      rw [List.forall_mem_cons] at h
      rw [nameRuns, ih h.2, h.1]

theorem identifiers_append_cons {c : Char} (h : isNamePart c = false) (front back : List Char) :
    identifiers (front ++ c :: back) = identifiers front ++ identifiers back := by
  rw [identifiers, nameRuns_append_cons h, List.map_append, List.filterMap_append]
  rfl

theorem identifiers_cons {c : Char} (h : isNamePart c = false) (text : List Char) :
    identifiers (c :: text) = identifiers text := identifiers_append_cons h [] text

/-- Names in two texts are not joined where a name cannot go on. -/
theorem identifiers_append {front back : List Char} (h : Stops isNamePart back) :
    identifiers (front ++ back) = identifiers front ++ identifiers back := by
  cases back with
  | nil => rw [List.append_nil]; exact (List.append_nil _).symm
  | cons c back =>
      have hPart := h c back rfl
      rw [identifiers_append_cons hPart, identifiers_cons hPart]

/-- An identifier is found as a whole. -/
theorem identifiers_self {name : String} (h : isIdentifier name = true) :
    identifiers name.toList = [name] := by
  simp only [isIdentifier, Bool.and_eq_true, List.all_eq_true] at h
  obtain ⟨hStart, hParts⟩ := h
  rw [identifiers, nameRuns_of_parts hParts, List.map_singleton]
  cases hName : name.toList with
  | nil => rw [hName] at hStart; cases hStart
  | cons c more =>
      rw [hName, List.head?_cons, Option.any_some] at hStart
      have hFilled : name.toList ≠ [] := by rw [hName]; exact List.cons_ne_nil _ _
      rw [List.dropWhile_cons_of_neg (by simp [isDigit_of_isNameStart hStart]), ← hName,
        List.filterMap_cons_some (b := name) (by simp [hFilled]), List.filterMap_nil]

/-! Quotes -/

theorem blankQuotes_cons {c : Char} (h : isQuote c = false) (text : List Char) :
    blankQuotes (c :: text) = c :: blankQuotes text := by
  simp only [isQuote, Bool.or_eq_false_iff, beq_eq_false_iff_ne] at h
  rw [blankQuotes, if_neg (not_or.mpr h)]

theorem blankQuotes_append {front : List Char} (h : ∀ c ∈ front, isQuote c = false)
    (back : List Char) : blankQuotes (front ++ back) = front ++ blankQuotes back := by
  induction front with
  | nil => rfl
  | cons c front ih =>
      rw [List.forall_mem_cons] at h
      rw [List.cons_append, blankQuotes_cons h.1, ih h.2, List.cons_append]

/-- What stands between quotes becomes one space, so it separates what is around it. -/
theorem blankQuotes_quoted {quote : Char} (hQuote : isQuote quote = true) {inside rest : List Char}
    (h : afterQuote? quote inside = some rest) :
    blankQuotes (quote :: inside) = ' ' :: blankQuotes rest := by
  simp only [isQuote, Bool.or_eq_true, beq_iff_eq] at hQuote
  rw [blankQuotes, if_pos hQuote]
  split
  · next hFound => rw [Option.some.inj (h.symm.trans hFound)]
  · next hNone => cases h.symm.trans hNone

/-- A name cannot go on behind blanked quotes if it cannot before. -/
theorem stops_blankQuotes {text : List Char} (h : Stops isNamePart text) :
    Stops isNamePart (blankQuotes text) := by
  cases text with
  | nil => rwa [blankQuotes]
  | cons c text =>
      intro d after he
      by_cases hQuote : isQuote c = true
      · cases hFound : afterQuote? c text with
        | some rest =>
            rw [blankQuotes_quoted hQuote hFound] at he
            cases he
            decide
        | none =>
            have hChar : c = '\'' ∨ c = '"' := by simpa [isQuote] using hQuote
            rw [blankQuotes, if_pos hChar] at he
            split at he
            · next hSome => cases hFound.symm.trans hSome
            · cases he
              exact h c text rfl
      · rw [blankQuotes_cons (Bool.eq_false_iff.mpr hQuote)] at he
        cases he
        exact h c text rfl

/-! Words -/

theorem words_nil : words [] = [] := by
  rw [words, blankQuotes]
  rfl

/-- A character that is neither of a name nor a quote adds no word. -/
theorem words_cons {c : Char} (hPart : isNamePart c = false) (hQuote : isQuote c = false)
    (text : List Char) : words (c :: text) = words text := by
  rw [words, blankQuotes_cons hQuote, identifiers_cons hPart]
  rfl

/-- Words are found piece by piece where the pieces do not run into each other. -/
theorem words_append {front back : List Char} (hFront : ∀ c ∈ front, isQuote c = false)
    (hBack : Stops isNamePart back) : words (front ++ back) = identifiers front ++ words back := by
  rw [words, blankQuotes_append hFront, identifiers_append (stops_blankQuotes hBack)]
  rfl

theorem words_quoted {quote : Char} (hQuote : isQuote quote = true) {inside rest : List Char}
    (h : afterQuote? quote inside = some rest) : words (quote :: inside) = words rest := by
  rw [words, blankQuotes_quoted hQuote h, identifiers_cons (by decide)]
  rfl

/-! Tokens -/

/-- No line ends behind a backslash. -/
def Unbroken (text : List Char) : Prop := ¬ ['\\', '\n'] <:+: text

theorem unbroken_of_not_mem {text : List Char} (h : '\n' ∉ text) : Unbroken text :=
  fun hBreak => h (hBreak.subset (by simp))

theorem Unbroken.of_suffix {text rest : List Char} (h : Unbroken text) (hSuffix : rest <:+ text) :
    Unbroken rest :=
  fun hBreak => h (hBreak.trans hSuffix.isInfix)

/-- Both readings of a string agree on its end. -/
theorem afterQuote?_of_quoted {quote : Char} (hQuote : isQuote quote = true)
    {inside chars rest : List Char} (h : Quoted quote inside chars rest) (hLines : Unbroken inside) :
    afterQuote? quote inside = some rest := by
  induction h with
  | close rest =>
      simp only [isQuote, Bool.or_eq_true, beq_iff_eq] at hQuote
      rcases hQuote with rfl | rfl <;> simp [afterQuote?]
  | @escape c text chars rest _ ih =>
      have hChar : c ≠ '\n' := by
        rintro rfl
        exact hLines ⟨[], text, rfl⟩
      rw [afterQuote?, if_neg hChar]
      exact ih (hLines.of_suffix ⟨['\\', c], rfl⟩)
  | @char c hBackslash hOther text chars rest _ ih =>
      rw [afterQuote?, if_neg hOther]
      · exact ih (hLines.of_suffix (List.suffix_cons _ _))
      · exact fun h => absurd h hBackslash
      · exact fun _ _ h => absurd h hBackslash

/-- Up to the rest of the text these words are found, if no line ends behind a
backslash. -/
structure Finds (text : List Char) (found : List String) (rest : List Char) : Prop where
  suffix : rest <:+ text
  words : Unbroken text → words text = found ++ words rest

theorem Finds.refl (text : List Char) : Finds text [] text := ⟨List.suffix_refl _, fun _ => rfl⟩

theorem Finds.append {text mid rest : List Char} {first second : List String}
    (h : Finds text first mid) (h' : Finds mid second rest) : Finds text (first ++ second) rest where
  suffix := h'.suffix.trans h.suffix
  words hLines := by
    rw [h.words hLines, h'.words (hLines.of_suffix h.suffix), List.append_assoc]

/-- Behind a token that is no name nothing is found before the next one. -/
theorem Finds.behind {text mid rest : List Char} {found : List String} (h : Finds text [] mid)
    (h' : Finds mid found rest) : Finds text found rest := h.append h'

/-- Nothing more is found where the scan passes no names. Token by token, this is how white space
and marks are passed. -/
theorem Finds.before {text mid rest : List Char} {found : List String} (h : Finds text found mid)
    (h' : Finds mid [] rest) : Finds text found rest := by
  simpa using h.append h'

/-- A mark, or anything else that is neither of a name nor a quote. -/
theorem finds_cons {c : Char} (hPart : isNamePart c = false) (hQuote : isQuote c = false)
    (rest : List Char) : Finds (c :: rest) [] rest where
  suffix := List.suffix_cons _ _
  words _ := words_cons hPart hQuote rest

/-- The text begins with these characters, and no quote is among them. -/
structure Bare (text token rest : List Char) : Prop where
  split : text = token ++ rest
  quotes : ∀ c ∈ token, isQuote c = false

/-- The names in a token are found if no name goes on behind it. -/
theorem Bare.finds {text token rest : List Char} (h : Bare text token rest)
    (hRest : Stops isNamePart rest) : Finds text (identifiers token) rest := by
  rw [h.split]
  exact ⟨List.suffix_append _ _, fun _ => words_append h.quotes hRest⟩

theorem not_isNamePart_of_isBlank {c : Char} (h : isBlank c = true) : isNamePart c = false := by
  rw [Bool.eq_false_iff]
  intro hPart
  rw [isNamePart_iff] at hPart
  simp only [isBlank, Text.Ranges.contains, Text.whiteSpace, List.any_cons, List.any_nil,
    Bool.or_false, Bool.or_eq_true, Bool.and_eq_true, decide_eq_true_eq] at h
  omega

theorem not_isQuote_of_isBlank {c : Char} (h : isBlank c = true) : isQuote c = false := by
  rw [Bool.eq_false_iff]
  intro hQuote
  simp only [isQuote, Bool.or_eq_true, beq_iff_eq] at hQuote
  rcases hQuote with rfl | rfl <;> exact absurd h (by decide)

/-- The scan passes white space without finding anything. -/
theorem finds_skips {text rest : List Char} (h : Skips text rest) : Finds text [] rest := by
  obtain ⟨blanks, hRun⟩ := h
  have hBlanks := hRun.inside
  rw [hRun.split]
  clear hRun
  induction blanks with
  | nil => exact .refl rest
  | cons c blanks ih =>
      rw [List.forall_mem_cons] at hBlanks
      have hFirst := finds_cons (not_isNamePart_of_isBlank hBlanks.1)
        (not_isQuote_of_isBlank hBlanks.1) (blanks ++ rest)
      exact hFirst.behind (ih hBlanks.2)

/-- A mark separates names. -/
structure IsMark (c : Char) : Prop where
  part : isNamePart c = false
  quote : isQuote c = false

theorem finds_mark {c : Char} (hMark : IsMark c) {text rest : List Char} (h : Mark c text rest) :
    Finds text [] rest :=
  (finds_skips h).behind (finds_cons hMark.part hMark.quote rest)

theorem finds_ellipsis {text rest : List Char} (h : Skips text ('.' :: '.' :: '.' :: rest)) :
    Finds text [] rest := by
  have hDot (rest : List Char) : Finds ('.' :: rest) [] rest :=
    finds_cons (by decide) (by decide) rest
  exact (finds_skips h).behind ((hDot _).behind ((hDot _).behind (hDot _)))

/-- A name does not go on where a mark comes next. -/
theorem stops_of_mark {c : Char} (hMark : IsMark c) {text rest : List Char} (h : Mark c text rest) :
    Stops isNamePart text := by
  obtain ⟨blanks, hRun⟩ := h
  intro first after he
  cases blanks with
  | nil =>
      cases hRun.split.symm.trans he
      exact hMark.part
  | cons blank blanks =>
      cases hRun.split.symm.trans he
      exact not_isNamePart_of_isBlank (hRun.inside _ List.mem_cons_self)

/-- The characters of identifiers are characters of names in the notation, which may have dots and
other letters too. -/
theorem isNameChar_of_isNamePart {c : Char} (h : isNamePart c = true) : IsNameChar c := by
  have hRange := isNamePart_iff.mp h
  simp only [isNamePart, Bool.or_eq_true, beq_iff_eq] at h
  rcases h with h | h
  · exact .inl (by rw [Text.isAlphanumeric, if_pos (by omega)]; exact h)
  · exact .inr (.inl h)

theorem not_isQuote_of_isNameChar {c : Char} (h : IsNameChar c) : isQuote c = false := by
  rw [Bool.eq_false_iff]
  intro hQuote
  simp only [isQuote, Bool.or_eq_true, beq_iff_eq] at hQuote
  rcases hQuote with rfl | rfl <;> exact absurd h (by simp [IsNameChar]; decide)

theorem bare_of_name {text : List Char} {name : String} {rest : List Char}
    (h : Name text name rest) : Bare text name.toList rest :=
  ⟨h.run.split, fun c hc => not_isQuote_of_isNameChar (h.run.inside c hc)⟩

/-- Of a name, the scan finds the pieces between its dots. -/
theorem finds_name {text : List Char} {name : String} {rest : List Char} (h : Name text name rest) :
    Finds text (identifiers name.toList) rest := by
  apply (bare_of_name h).finds
  intro c after he
  rw [Bool.eq_false_iff]
  intro hPart
  exact h.run.longest c (by simp [he]) (isNameChar_of_isNamePart hPart)

/-- A number has no quotes. It may contain letters that the scan takes for a name. -/
theorem bare_of_number {text : List Char} {value : Constant} {rest : List Char}
    (h : NumberText text value rest) : ∃ token, Bare text token rest := by
  have hQuote (c : Char) (h : IsNumberChar c) : isQuote c = false := by
    rw [Bool.eq_false_iff]
    intro hQuote
    simp only [isQuote, Bool.or_eq_true, beq_iff_eq] at hQuote
    rcases hQuote with rfl | rfl <;> exact absurd h (by simp [IsNumberChar])
  cases h with
  | plain hRun _ => exact ⟨_, hRun.split, fun c hc => hQuote c (hRun.inside c hc)⟩
  | @negative text run rest _ hRun _ =>
      refine ⟨'-' :: run, congrArg _ hRun.split, List.forall_mem_cons.mpr ⟨by decide, ?_⟩⟩
      exact fun c hc => hQuote c (hRun.inside c hc)

/-- What follows a string is a later part of the text. -/
theorem Quoted.suffix {quote : Char} {text chars rest : List Char}
    (h : Quoted quote text chars rest) : rest <:+ text := by
  induction h with
  | close rest => exact List.suffix_cons _ _
  | escape c _ ih => exact ih.trans ⟨['\\', c], rfl⟩
  | char _ _ _ ih => exact ih.trans (List.suffix_cons _ _)

/-- The scan and the grammar agree on where a string ends, if no line ends behind a backslash. -/
theorem finds_quoted {text : List Char} {value : String} {rest : List Char}
    (h : QuotedText text value rest) : Finds text [] rest := by
  obtain ⟨quote, hQuote, inside, rfl, h⟩ := h
  have hChar : isQuote quote = true := by simpa [isQuote] using hQuote
  refine ⟨(Quoted.suffix h).trans (List.suffix_cons _ _), fun hLines => ?_⟩
  exact words_quoted hChar (afterQuote?_of_quoted hChar h (hLines.of_suffix (List.suffix_cons _ _)))

/-! Tokens of a lexicon -/

/-- None of the names occurs in the text up to the rest, if there is no quote in
it. -/
def Silent (declared : List String) (text rest : List Char) : Prop :=
  ∀ token, Bare text token rest → ∀ name ∈ identifiers token, name ∉ declared

/-- Whatever stands in a string is silent. -/
theorem silent_of_quoted {text : List Char} {value : String} {rest : List Char}
    (h : QuotedText text value rest) (declared : List String) : Silent declared text rest := by
  intro token hBare
  obtain ⟨quote, hQuote, inside, rfl, h⟩ := h
  have hChar : isQuote quote = true := by simpa [isQuote] using hQuote
  have hShort := (Quoted.suffix h).length_le
  have hSplit := hBare.split
  cases token with
  | nil =>
      rw [List.nil_append] at hSplit
      rw [← hSplit, List.length_cons] at hShort
      omega
  | cons c token =>
      cases hSplit
      have hOther := hBare.quotes quote (.head _)
      rw [hChar] at hOther
      cases hOther

/-- The tokens of a lexicon in which declared names stand only where they refer to
something. -/
def avoiding (lexicon : Lexicon) (declared : List String) : Lexicon where
  path text path rest := lexicon.path text path rest ∧ ∀ module ∈ modules, ∀ word,
    path = module ++ word → ∀ name ∈ identifiers module.toList, name ∉ declared
  constant text value rest := lexicon.constant text value rest ∧ Silent declared text rest
  tag text value rest := lexicon.tag text value rest ∧ Silent declared text rest

/-- The scan finds none of the names in a token, if no name goes on behind it. -/
def Quiet {α : Type} (declared : List String) (token : List Char → α → List Char → Prop) : Prop :=
  ∀ text value rest, token text value rest → Stops isNamePart rest →
    ∃ found, Finds text found rest ∧ ∀ name ∈ found, name ∉ declared

/-- A token in which no declared name occurs is quiet, and so is one between quotes. -/
theorem quiet_of_bare {declared : List String} {text rest : List Char} (hSilent : Silent declared text rest)
    (hRest : Stops isNamePart rest) (h : Finds text [] rest ∨ ∃ token, Bare text token rest) :
    ∃ found, Finds text found rest ∧ ∀ name ∈ found, name ∉ declared := by
  rcases h with h | ⟨token, h⟩
  · exact ⟨[], h, by simp⟩
  · exact ⟨_, h.finds hRest, hSilent token h⟩

/-- A constant is a string, or it has no quotes. The same holds for a tag. -/
theorem constant_cases {text : List Char} {value : Constant} {rest : List Char}
    (h : tokens.constant text value rest) :
    Finds text [] rest ∨ ∃ token, Bare text token rest := by
  cases h with
  | str h => exact .inl (finds_quoted h)
  | number h => exact .inr (bare_of_number h.1)
  | true _ h => exact .inr ⟨_, bare_of_name h⟩
  | false _ h => exact .inr ⟨_, bare_of_name h⟩

theorem tag_cases {text : List Char} {tag : String} {rest : List Char}
    (h : tokens.tag text tag rest) : Finds text [] rest ∨ ∃ token, Bare text token rest := by
  cases h with
  | str h => exact .inl (finds_quoted h)
  | number h => exact .inr (bare_of_number h.1)
  | name h => exact .inr ⟨_, bare_of_name h.1⟩

end ToolSchema.Manifest
