import ToolSchema.Proofs.TypeExpr.Display
import ToolSchema.Proofs.TypeExpr.Grammar

/-! The tokens of the notation. Each one is read exactly as the grammar says. -/
namespace ToolSchema.TypeExpr.Grammar

open Text (isBlank trimStart Parsed)

/-! Runs of characters -/

/-- The longest run of some characters is what the library takes off the front of a text. -/
theorem run_iff {p : Char → Bool} {text run rest : List Char} :
    Run (p · = true) text run rest ↔ run = text.takeWhile p ∧ rest = text.dropWhile p := by
  constructor
  · intro h
    have hStops : Stops p rest := by
      intro c after he
      simpa using h.longest c (by simp [he])
    obtain ⟨hTake, hDrop⟩ := span_append h.inside hStops
    rw [h.split, hTake, hDrop]
    exact ⟨rfl, rfl⟩
  · intro h
    obtain ⟨rfl, rfl⟩ := h
    refine ⟨List.takeWhile_append_dropWhile.symm, fun _ => List.mem_takeWhile_imp, fun c hc => ?_⟩
    obtain ⟨after, he⟩ := List.head?_eq_some_iff.mp hc
    simp [stops_dropWhile p text c after he]

theorem run_congr {p q : Char → Prop} (h : ∀ c, p c ↔ q c) {text run rest : List Char} :
    Run p text run rest ↔ Run q text run rest := by
  rw [funext fun c => propext (h c)]

/-- The grammar describes the characters of a name, and the reader tests for them. -/
theorem nameRun_iff {text run rest : List Char} :
    Run IsNameChar text run rest ↔
      run = text.takeWhile isNameChar ∧ rest = text.dropWhile isNameChar := by
  refine Iff.trans (run_congr fun c => ?_) run_iff
  simp [IsNameChar, isNameChar, or_assoc]

theorem numberRun_iff {text run rest : List Char} :
    Run IsNumberChar text run rest ↔
      run = text.takeWhile isNumberChar ∧ rest = text.dropWhile isNumberChar := by
  refine Iff.trans (run_congr fun c => ?_) run_iff
  simp [IsNumberChar, isNumberChar, or_assoc]

/-- White space before a token, as the reader skips it. -/
theorem skips_iff {text rest : List Char} : Skips text rest ↔ trimStart text = rest := by
  constructor
  · intro h
    obtain ⟨blanks, hRun⟩ := h
    exact (run_iff.mp hRun).2.symm
  · intro h
    exact ⟨_, run_iff.mpr ⟨rfl, h.symm⟩⟩

/-- A token may have white space before it, so it is read from the trimmed text. -/
theorem spaced_iff {α : Type} {token : List Char → α → List Char → Prop} {text : List Char}
    {value : α} {rest : List Char} :
    Spaced token text value rest ↔ token (trimStart text) value rest := by
  simp [Spaced, skips_iff]

/-! Tokens -/

/-- A name is a run that is not empty. -/
theorem name_iff {text : List Char} {name : String} {rest : List Char} :
    Name (trimStart text) name rest ↔ Reads (readName text) name rest := by
  rw [readName_iff]
  constructor
  · intro h
    obtain ⟨hName, hRest⟩ := nameRun_iff.mp h.run
    rw [← hName]
    refine ⟨?_, String.ofList_toList.symm, hRest⟩
    simp only [IsName, not_or]
    exact ⟨h.nonempty, h.first, h.last⟩
  · intro h
    obtain ⟨hName, rfl, rfl⟩ := h
    simp only [IsName, not_or] at hName
    rw [← String.toList_ofList (l := (trimStart text).takeWhile isNameChar)] at hName
    exact ⟨nameRun_iff.mpr ⟨String.toList_ofList, rfl⟩, hName.1, hName.2.1, hName.2.2⟩

/-- A text is read in one way at most. -/
theorem reads_unique {α : Type} {text : List Char} {reading : Reading (Parsed α text)} {a b : α}
    {rest rest' : List Char} (h : Reads reading a rest) (h' : Reads reading b rest') :
    a = b ∧ rest = rest' := by
  obtain ⟨p, hRead, rfl, rfl⟩ := h
  obtain ⟨q, hRead', rfl, rfl⟩ := h'
  cases hRead.symm.trans hRead'
  exact ⟨rfl, rfl⟩

/-- A string ends at its own quote. By induction over the cases of the reader, with a backslash
taking the next character along. -/
theorem quoted_iff {quote : Char} (hQuote : quote ≠ '\\') {text chars rest : List Char} :
    Quoted quote text chars rest ↔ Reads (readQuoted quote text) chars rest := by
  constructor
  · intro h
    induction h with
    | close rest => exact readQuoted_close hQuote rest
    | escape c _ ih => exact readQuoted_escape_iff.mpr ⟨_, ih, rfl⟩
    | char hBackslash hOther _ ih => exact (readQuoted_cons_iff hBackslash hOther).mpr ⟨_, ih, rfl⟩
  · intro h
    induction hLength : text.length using Nat.strongRecOn generalizing text chars with
    | ind n ih =>
        subst hLength
        cases text with
        | nil => exact absurd h not_reads_error
        | cons c text =>
            by_cases hBackslash : c = '\\'
            · subst hBackslash
              cases text with
              | nil => exact absurd h not_reads_error
              | cons c text =>
                  obtain ⟨more, hMore, rfl⟩ := readQuoted_escape_iff.mp h
                  exact .escape c (ih _ (by simp only [List.length_cons]; omega) hMore rfl)
            · by_cases hClose : c = quote
              · subst hClose
                obtain ⟨rfl, rfl⟩ := reads_unique h (readQuoted_close hBackslash text)
                exact .close rest
              · obtain ⟨more, hMore, rfl⟩ := (readQuoted_cons_iff hBackslash hClose).mp h
                exact .char hBackslash hClose (ih _ (by simp) hMore rfl)

/-- The first character decides that a number is read, and may itself be a sign. -/
theorem readNumber_iff {first : Char} {inside : List Char} {value : Constant} {rest : List Char} :
    Reads (readNumber first inside) value rest ↔
      NumberValue (first :: inside.takeWhile isNumberChar) value ∧
        rest = inside.dropWhile isNumberChar := by
  rw [readNumber]
  dsimp only
  split
  · next n hInt =>
    rw [reads_ok_iff]
    constructor
    · intro h
      obtain ⟨rfl, rfl⟩ := h
      exact ⟨.int hInt, rfl⟩
    · intro h
      obtain ⟨hValue, rfl⟩ := h
      cases hValue with
      | int h => exact ⟨congrArg _ (Option.some.inj (h.symm.trans hInt)), rfl⟩
      | float hNone _ => cases hInt.symm.trans hNone
  · next x hNone hFloat =>
    rw [reads_ok_iff]
    constructor
    · intro h
      obtain ⟨rfl, rfl⟩ := h
      exact ⟨.float hNone hFloat, rfl⟩
    · intro h
      obtain ⟨hValue, rfl⟩ := h
      cases hValue with
      | int h => cases h.symm.trans hNone
      | float _ h => exact ⟨congrArg _ (Option.some.inj (h.symm.trans hFloat)), rfl⟩
  · next hNone hFloat =>
    refine iff_of_false not_reads_error fun h => ?_
    cases h.1 with
    | int hInt => cases hInt.symm.trans hNone
    | float _ hValue => cases hValue.symm.trans hFloat

theorem not_numberValue_nil {value : Constant} : ¬ NumberValue [] value := by
  intro h
  cases h with
  | int h => cases h
  | float _ h => cases h

/-- The grammar tells a number by its first character, like the reader. -/
theorem leadingNumber_iff {first : Char} {inside : List Char} {value : Constant}
    {rest : List Char} :
    LeadingNumber (first :: inside) value rest ↔
      startsNumber first = true ∧ Reads (readNumber first inside) value rest := by
  have hLeads : (∃ c ∈ (first :: inside).head?, c.isDigit = true ∨ c = '-') ↔
      startsNumber first = true := by
    simp [startsNumber]
  rw [LeadingNumber, hLeads, and_comm, readNumber_iff]
  refine and_congr_right fun hFirst => ?_
  constructor
  · intro h
    cases h with
    | plain hRun hValue =>
        obtain ⟨rfl, hRest⟩ := numberRun_iff.mp hRun
        by_cases hNumber : isNumberChar first = true
        · rw [List.takeWhile_cons_of_pos hNumber] at hValue
          rw [List.dropWhile_cons_of_pos hNumber] at hRest
          exact ⟨hValue, hRest⟩
        · rw [List.takeWhile_cons_of_neg hNumber] at hValue
          exact absurd hValue not_numberValue_nil
    | negative hRun hValue =>
        obtain ⟨rfl, hRest⟩ := numberRun_iff.mp hRun
        exact ⟨hValue, hRest⟩
  · intro h
    obtain ⟨hValue, rfl⟩ := h
    simp only [startsNumber, Bool.or_eq_true, beq_iff_eq] at hFirst
    rcases hFirst with hDigit | rfl
    · have hNumber : isNumberChar first = true := by simp [isNumberChar, hDigit]
      refine .plain (numberRun_iff.mpr ⟨rfl, ?_⟩) ?_
      · rw [List.dropWhile_cons_of_pos hNumber]
      · rwa [List.takeWhile_cons_of_pos hNumber]
    · exact .negative (numberRun_iff.mpr ⟨rfl, rfl⟩) hValue

/-- A string may stand in quotes of both kinds. -/
theorem quotedText_iff {first : Char} {inside : List Char} {value : String} {rest : List Char} :
    QuotedText (first :: inside) value rest ↔
      isQuote first = true ∧ Reads (readQuoted first inside) value.toList rest := by
  simp only [QuotedText, isQuote, Bool.or_eq_true, beq_iff_eq, List.mem_cons, List.not_mem_nil,
    or_false, List.cons.injEq]
  constructor
  · intro h
    obtain ⟨quote, hQuote, _, ⟨rfl, rfl⟩, h⟩ := h
    refine ⟨hQuote, (quoted_iff ?_).mp h⟩
    rcases hQuote with rfl | rfl <;> decide
  · intro h
    obtain ⟨hQuote, h⟩ := h
    refine ⟨first, hQuote, inside, ⟨rfl, rfl⟩, (quoted_iff ?_).mpr h⟩
    rcases hQuote with rfl | rfl <;> decide

theorem not_name_nil {name : String} {rest : List Char} : ¬ Name [] name rest := by
  intro h
  exact h.nonempty (List.append_eq_nil_iff.mp h.run.split.symm).1

/-- The first character of a name. -/
theorem Name.leads {first : Char} {inside : List Char} {name : String} {rest : List Char}
    (h : Name (first :: inside) name rest) : name.toList.head? = some first ∧ IsNameChar first := by
  obtain ⟨c, more, hName⟩ := List.exists_cons_of_ne_nil h.nonempty
  have hSplit := h.run.split
  rw [hName, List.cons_append] at hSplit
  cases hSplit
  exact ⟨by rw [hName]; rfl, h.run.inside first (by simp [hName])⟩

theorem not_constantText_nil {value : Constant} {rest : List Char} :
    ¬ tokens.constant [] value rest := by
  intro h
  cases h with
  | str h =>
      obtain ⟨_, _, _, hText, _⟩ := h
      cases hText
  | number h =>
      obtain ⟨_, _, hFirst, _⟩ := h
      cases hFirst
  | true _ h => exact not_name_nil h
  | false _ h => exact not_name_nil h

theorem not_tagText_nil {tag : String} {rest : List Char} : ¬ tokens.tag [] tag rest := by
  intro h
  cases h with
  | str h =>
      obtain ⟨_, _, _, hText, _⟩ := h
      cases hText
  | number h =>
      obtain ⟨_, _, hFirst, _⟩ := h
      cases hFirst
  | name h => exact not_name_nil h.1

section

variable {text inside : List Char} {first : Char} {rest : List Char}

/-- What begins a constant or a tag is decided by one character: nothing that begins with a quote is
a name or a number. -/
theorem not_name_of_isQuote (h : isQuote first = true) {name : String} :
    ¬ Name (first :: inside) name rest := by
  intro hName
  have hFirst := hName.leads.2
  simp only [isQuote, Bool.or_eq_true, beq_iff_eq] at h
  rcases h with rfl | rfl <;> exact absurd hFirst (by simp [IsNameChar]; decide)

theorem startsNumber_of_isQuote (h : isQuote first = true) : startsNumber first = false := by
  simp only [isQuote, Bool.or_eq_true, beq_iff_eq] at h
  rcases h with rfl | rfl <;> decide

/-- A tag that is a word is a name, unless its first character begins a number. -/
theorem tagName_iff {name : String} (hNumber : startsNumber first = false) :
    TagName (first :: inside) name rest ↔ Name (first :: inside) name rest := by
  have hDigit : ∀ c ∈ (first :: inside).head?, c.isDigit = false := by
    simp only [startsNumber, Bool.or_eq_false_iff] at hNumber
    simp [hNumber.1]
  exact and_iff_left hDigit

theorem not_tagName (hNumber : startsNumber first = true) {name : String} :
    ¬ TagName (first :: inside) name rest := by
  intro h
  have hFirst := h.1.leads.2
  have hDigit := h.2 first rfl
  simp only [startsNumber, hDigit, Bool.false_or, beq_iff_eq] at hNumber
  subst hNumber
  exact absurd hFirst (by simp [IsNameChar]; decide)

/-- A truth value does not look like a number. -/
theorem not_name_of_startsNumber (hNumber : startsNumber first = true) {name : String}
    (hName : name ∈ ["True", "true", "False", "false"]) : ¬ Name (first :: inside) name rest := by
  intro h
  have hFirst := h.leads.1
  simp only [List.mem_cons, List.not_mem_nil, or_false] at hName
  rcases hName with rfl | rfl | rfl | rfl <;> cases hFirst <;> cases hNumber

/-- What a constant can be, told by its first character. -/
theorem constantText_cons_iff {value : Constant} :
    tokens.constant (first :: inside) value rest ↔
      (isQuote first = true ∧
        ∃ chars, Reads (readQuoted first inside) chars rest ∧ value = .str (.ofList chars)) ∨
      (startsNumber first = true ∧ Reads (readNumber first inside) value rest) ∨
      ∃ name, Name (first :: inside) name rest ∧
        (((name = "True" ∨ name = "true") ∧ value = .bool true) ∨
          ((name = "False" ∨ name = "false") ∧ value = .bool false)) := by
  constructor
  · intro h
    cases h with
    | str h =>
        obtain ⟨hQuote, hRead⟩ := quotedText_iff.mp h
        exact .inl ⟨hQuote, _, hRead, by rw [String.ofList_toList]⟩
    | number h => exact .inr (.inl (leadingNumber_iff.mp h))
    | true hName h => exact .inr (.inr ⟨_, h, .inl ⟨by simpa using hName, rfl⟩⟩)
    | false hName h => exact .inr (.inr ⟨_, h, .inr ⟨by simpa using hName, rfl⟩⟩)
  · intro h
    rcases h with ⟨hQuote, chars, hRead, rfl⟩ | h | ⟨name, h, ⟨hName, rfl⟩ | ⟨hName, rfl⟩⟩
    · exact .str (quotedText_iff.mpr ⟨hQuote, by rwa [String.toList_ofList]⟩)
    · exact .number (leadingNumber_iff.mpr h)
    · exact .true (by simpa using hName) h
    · exact .false (by simpa using hName) h

/-- A tag is a string, a number or a word, and its first character says which. -/
theorem tagText_cons_iff {tag : String} :
    tokens.tag (first :: inside) tag rest ↔
      (isQuote first = true ∧
        ∃ chars, Reads (readQuoted first inside) chars rest ∧ tag = .ofList chars) ∨
      (startsNumber first = true ∧
        ∃ value, Reads (readNumber first inside) value rest ∧ tag = value.text) ∨
      TagName (first :: inside) tag rest := by
  constructor
  · intro h
    cases h with
    | str h =>
        obtain ⟨hQuote, hRead⟩ := quotedText_iff.mp h
        exact .inl ⟨hQuote, _, hRead, String.ofList_toList.symm⟩
    | number h =>
        obtain ⟨hNumber, hRead⟩ := leadingNumber_iff.mp h
        exact .inr (.inl ⟨hNumber, _, hRead, rfl⟩)
    | name h => exact .inr (.inr h)
  · intro h
    rcases h with ⟨hQuote, chars, hRead, rfl⟩ | ⟨hNumber, value, hRead, rfl⟩ | h
    · exact .str (quotedText_iff.mpr ⟨hQuote, by rwa [String.toList_ofList]⟩)
    · exact .number (leadingNumber_iff.mpr ⟨hNumber, hRead⟩)
    · exact .name h

/-- Constants are read as the grammar of tokens says. The three cases exclude each other, so the
order of the tests does not matter. -/
theorem readConstant_iff {value : Constant} :
    Reads (readConstant text) value rest ↔ Spaced tokens.constant text value rest := by
  rw [spaced_iff]
  have hTrim := trimStart_trimStart text
  cases hStart : trimStart text with
  | nil =>
      refine iff_of_false ?_ not_constantText_nil
      rw [readConstant]
      split
      · exact not_reads_error
      · next hOther => cases hStart.symm.trans hOther
  | cons first inside =>
      rw [hStart] at hTrim
      rw [constantText_cons_iff]
      by_cases hQuote : isQuote first = true
      · rw [readConstant_quoted_iff hStart hQuote]
        simp [hQuote, startsNumber_of_isQuote hQuote, not_name_of_isQuote hQuote]
      · rw [Bool.not_eq_true] at hQuote
        by_cases hNumber : startsNumber first = true
        · have hWord : ¬ ∃ name, Name (first :: inside) name rest ∧
              (((name = "True" ∨ name = "true") ∧ value = .bool true) ∨
                ((name = "False" ∨ name = "false") ∧ value = .bool false)) := by
            intro h
            obtain ⟨name, hName, hValue⟩ := h
            apply not_name_of_startsNumber hNumber ?_ hName
            rcases hValue with ⟨hTrue | hTrue, _⟩ | ⟨hFalse | hFalse, _⟩ <;> simp [*]
          rw [readConstant_number_iff hStart hQuote hNumber]
          simp [hQuote, hNumber, hWord]
        · rw [Bool.not_eq_true] at hNumber
          rw [readConstant_word_iff hStart hQuote hNumber]
          simp only [hQuote, hNumber, ← name_iff, hTrim]
          simp

theorem readTag_iff {tag : String} :
    Reads (readTag text) tag rest ↔ Spaced tokens.tag text tag rest := by
  rw [spaced_iff]
  have hTrim := trimStart_trimStart text
  rw [readTag]
  split
  · next hStart =>
    rw [hStart]
    exact iff_of_false not_reads_error not_tagText_nil
  · next first inside hStart =>
    rw [hStart] at hTrim
    have hToken := congrArg (tokens.tag · tag rest) hStart
    rw [hToken, tagText_cons_iff]
    by_cases hQuote : isQuote first = true
    · have hNumber := startsNumber_of_isQuote hQuote
      have hName : ¬ TagName (first :: inside) tag rest := fun h => not_name_of_isQuote hQuote h.1
      rw [if_pos hQuote]
      refine Iff.trans (reads_map_iff (f := .ofList) (fun _ => rfl) fun _ => rfl) ?_
      simp [hQuote, hNumber, hName]
    · rw [if_neg hQuote]
      by_cases hNumber : startsNumber first = true
      · rw [if_pos hNumber]
        refine Iff.trans (reads_map_iff (f := Constant.text) (fun _ => rfl) fun _ => rfl) ?_
        simp [hQuote, hNumber, not_tagName hNumber]
      · rw [if_neg hNumber]
        refine Iff.trans (reads_map_iff (f := id) (fun _ => rfl) fun _ => rfl) ?_
        rw [Bool.not_eq_true] at hNumber
        simp [hQuote, hNumber, ← name_iff, hTrim, tagName_iff hNumber]

end

end ToolSchema.TypeExpr.Grammar
