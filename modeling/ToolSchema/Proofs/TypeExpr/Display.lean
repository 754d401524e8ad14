import Mathlib.Data.List.DropRight
import ToolSchema.Proofs.Number.Decimal
import ToolSchema.Proofs.TypeExpr.Reading
import ToolSchema.Proofs.TypeExpr.Structure

/-! Reading back the text of a type. The readers stop where the text of one part
ends, because of the character that comes next, and go on from there. -/
namespace ToolSchema

/-- Constants whose text can be read back. -/
def Constant.IsPlain : Constant → Prop
  | .float _ => False
  | .str text => '\\' ∉ text.toList
  | _ => True

namespace TypeExpr

open Text (isBlank trimStart)

/-! Texts -/

theorem intercalate_cons {α : Type} (mark first : List α) (more : List (List α)) :
    mark.intercalate (first :: more) = first ++ more.flatMap (mark ++ ·) := by
  induction more generalizing first with
  | nil => simp
  | cons second more ih => rw [List.intercalate_cons_cons, ih, List.flatMap_cons, List.append_assoc,
      List.append_assoc]

theorem textAll_eq_map (types : List TypeExpr) : textAll types = types.map text := by
  induction types with
  | nil => rfl
  | cons t types ih => rw [textAll, ih, List.map_cons]

theorem text_generic_cons (origin : Origin) (first : TypeExpr) (more : List TypeExpr) :
    text (.generic origin (first :: more)) =
      origin.name ++ "[" ++ ", ".intercalate ((first :: more).map text) ++ "]" := by
  rw [← textAll_eq_map]
  rfl

/-- A list with marks between its elements, as the first one and pairs of a mark and an element. -/
theorem toList_intercalate_map {α : Type} (mark : String) (textOf : α → String) (first : α)
    (more : List α) :
    (mark.intercalate ((first :: more).map textOf)).toList =
      (textOf first).toList ++ more.flatMap fun item => mark.toList ++ (textOf item).toList := by
  rw [String.toList_intercalate, List.map_map, List.map_cons, intercalate_cons, List.flatMap_map]
  rfl

/-! Where a reader stops -/

/-- The text does not go on with such a character. -/
def Stops (p : Char → Bool) (text : List Char) : Prop :=
  ∀ c after, text = c :: after → p c = false

theorem trimStart_append {text : List Char} (h : trimStart text ≠ []) (more : List Char) :
    trimStart (text ++ more) = trimStart text ++ more := by
  exact List.dropWhile_append.trans (if_neg fun hEmpty => h (List.isEmpty_iff.mp hEmpty))

theorem trimStart_append_blank {text : List Char} (h : trimStart text = []) (more : List Char) :
    trimStart (text ++ more) = trimStart more := by
  exact List.dropWhile_append.trans (if_pos (List.isEmpty_iff.mpr h))

theorem trimStart_trimStart (text : List Char) : trimStart (trimStart text) = trimStart text :=
  List.dropWhile_idempotent ..

theorem trimStart_cons {c : Char} (h : isBlank c = false) (text : List Char) :
    trimStart (c :: text) = c :: text :=
  List.dropWhile_cons_of_neg (by rw [h]; exact nofun)

theorem isBlank_of_isDigit {c : Char} (h : c.isDigit = true) : isBlank c = false := by
  have hRange : 48 ≤ c.toNat ∧ c.toNat ≤ 57 := Char.isDigit_iff_toNat.mp h
  simp only [isBlank, Text.Ranges.contains, Text.whiteSpace, List.any_cons, List.any_nil,
    Bool.or_false, Bool.or_eq_false_iff, Bool.and_eq_false_iff, decide_eq_false_iff_not]
  omega

theorem trimStart_space (text : List Char) : trimStart (' ' :: text) = trimStart text :=
  List.dropWhile_cons_of_pos (by decide)

/-- A run of characters stops where another text begins that does not go on with them. -/
theorem span_append {p : Char → Bool} {front back : List Char} (hFront : ∀ c ∈ front, p c = true)
    (hBack : Stops p back) :
    (front ++ back).takeWhile p = front ∧ (front ++ back).dropWhile p = back := by
  rw [List.takeWhile_append_of_pos hFront, List.dropWhile_append_of_pos hFront]
  cases back with
  | nil => exact ⟨List.append_nil front, rfl⟩
  | cons c back =>
      have hStop : ¬ p c = true := by rw [hBack c back rfl]; exact nofun
      rw [List.takeWhile_cons_of_neg hStop, List.dropWhile_cons_of_neg hStop]
      exact ⟨List.append_nil front, rfl⟩

/-- Behind a run the text does not go on with its characters. -/
theorem stops_dropWhile (p : Char → Bool) (text : List Char) : Stops p (text.dropWhile p) := by
  intro c after h
  induction text with
  | nil => cases h
  | cons first text ih =>
      rw [List.dropWhile_cons] at h
      split at h
      · exact ih h
      · next hFirst =>
        cases h
        exact Bool.eq_false_iff.mpr hFirst

/-- What stands behind a type, if anything does. -/
inductive Ends : List Char → Prop
  | nothing : Ends []
  | comma (after : List Char) : Ends (',' :: after)
  | bracket (after : List Char) : Ends (']' :: after)

/-- What stands behind an arm of a union. -/
def ArmEnds (rest : List Char) : Prop := Ends rest ∨ ∃ after, rest = ' ' :: '|' :: after

/-- At a comma, a bracket or the end of the text every run of other characters stops. -/
theorem Ends.stops {p : Char → Bool} (hComma : p ',' = false) (hBracket : p ']' = false)
    {rest : List Char} (h : Ends rest) : Stops p rest := by
  intro c after he
  cases h <;> cases he
  · exact hComma
  · exact hBracket

theorem ArmEnds.stops {rest : List Char} (h : ArmEnds rest) : Stops isNameChar rest := by
  rcases h with h | ⟨_, rfl⟩
  · exact h.stops (by decide) (by decide)
  · intro c after he
    cases he
    decide

theorem Ends.trimStart_eq {rest : List Char} (h : Ends rest) : trimStart rest = rest := by
  cases h
  · rfl
  · exact trimStart_cons (by decide) _
  · exact trimStart_cons (by decide) _

theorem Ends.no_bar {rest : List Char} (h : Ends rest) (after : List Char) :
    trimStart rest ≠ '|' :: after := by
  rw [h.trimStart_eq]
  rintro rfl
  cases h

theorem ArmEnds.no_bracket {rest : List Char} (h : ArmEnds rest) (inside : List Char) :
    trimStart rest ≠ '[' :: inside := by
  rcases h with h | ⟨after, rfl⟩
  · rw [h.trimStart_eq]
    rintro rfl
    cases h
  · rw [trimStart_space, trimStart_cons (by decide)]
    exact nofun

/-! Words -/

/-- A word that is read as a whole where it stands. -/
def isWord (word : String) : Bool :=
  word.toList.all isNameChar && word.toList.head?.any (fun c => !isBlank c && c != '.') &&
    word.toList.getLast?.any (· != '.')

theorem isName_of_isWord {word : String} (h : isWord word = true) : IsName word.toList := by
  simp only [isWord, Bool.and_eq_true] at h
  rintro (hNone | hHead | hLast)
  · rw [hNone] at h
    exact absurd h.2 nofun
  · rw [hHead] at h
    exact absurd h.1.2 (by decide)
  · rw [hLast] at h
    exact absurd h.2 (by decide)

/-- A word begins with a character of a name other than the dot. -/
theorem exists_cons_of_isWord {word : String} (h : isWord word = true) :
    ∃ c more, word.toList = c :: more ∧ isBlank c = false ∧ c ≠ '.' ∧ isNameChar c = true := by
  simp only [isWord, Bool.and_eq_true, List.all_eq_true] at h
  cases hChars : word.toList with
  | nil =>
      rw [hChars] at h
      exact absurd h.2 nofun
  | cons c more =>
      rw [hChars] at h
      have hFirst := h.1.2
      simp only [List.head?_cons, Option.any_some, Bool.and_eq_true, Bool.not_eq_true',
        bne_iff_ne] at hFirst
      exact ⟨c, more, rfl, hFirst.1, hFirst.2, h.1.1 c List.mem_cons_self⟩

theorem trimStart_word {word : String} (h : isWord word = true) (after : List Char) :
    trimStart (word.toList ++ after) = word.toList ++ after := by
  obtain ⟨c, more, hChars, hBlank, _⟩ := exists_cons_of_isWord h
  rw [hChars, List.cons_append, trimStart_cons hBlank]

/-- A word is read as a name where it stops. -/
theorem readName_word {word : String} (hWord : isWord word = true) {after : List Char}
    (hAfter : Stops isNameChar after) : Reads (readName (word.toList ++ after)) word after := by
  have hAll : ∀ c ∈ word.toList, isNameChar c = true := by
    simp only [isWord, Bool.and_eq_true, List.all_eq_true] at hWord
    exact hWord.1.1
  obtain ⟨hName, hRest⟩ := span_append hAll hAfter
  rw [readName_iff, trimStart_word hWord, hName, hRest]
  exact ⟨isName_of_isWord hWord, String.ofList_toList.symm, rfl⟩

/-- A word in front leads to what the word stands for. -/
theorem readPrimary_word {names : Names} {word : String} (hWord : isWord word = true)
    {after : List Char} (hAfter : Stops isNameChar after) {t : TypeExpr} {rest : List Char}
    (h : WordReads names word after t rest) :
    Reads (readPrimary names (word.toList ++ after)) t rest := by
  obtain ⟨c, more, hChars, _, hDot, hNameChar⟩ := exists_cons_of_isWord hWord
  have hStart := trimStart_word hWord after
  rw [readPrimary_word_iff, hStart]
  · exact ⟨word, after, readName_word hWord hAfter, h⟩
  · rw [hStart, hChars]
    exact fun _ he => hDot (List.cons.inj he).1
  · rw [hStart, hChars]
    intro _ he
    rw [(List.cons.inj he).1] at hNameChar
    exact absurd hNameChar (by decide)

/-! Constants and tags -/

/-- A string without backslashes reads back. Its quotes have been escaped. -/
theorem readQuoted_escaped {chars : List Char} (h : '\\' ∉ chars) (rest : List Char) :
    Reads (readQuoted '\'' (chars.flatMap Constant.escapeQuote ++ '\'' :: rest)) chars rest := by
  induction chars with
  | nil => exact readQuoted_close (by decide) rest
  | cons c chars ih =>
      rw [List.mem_cons, not_or] at h
      rw [List.flatMap_cons, Constant.escapeQuote]
      by_cases hQuote : c = '\''
      · subst hQuote
        exact readQuoted_escape_iff.mpr ⟨chars, ih h.2, rfl⟩
      · rw [if_neg hQuote]
        exact (readQuoted_cons_iff (Ne.symm h.1) hQuote).mpr ⟨chars, ih h.2, rfl⟩

/-- The text of such a string is read as a constant. -/
theorem readConstant_str {value : String} (h : '\\' ∉ value.toList) {text rest : List Char}
    (hText : trimStart text = trimStart ((Constant.str value).text.toList ++ rest)) :
    Reads (readConstant text) (.str value) rest := by
  have hStart : trimStart text =
      '\'' :: (value.toList.flatMap Constant.escapeQuote ++ '\'' :: rest) := by
    simp only [hText, Constant.text, String.toList_ofList, List.cons_append, List.append_assoc,
      List.nil_append]
    exact trimStart_cons (by decide) _
  refine (readConstant_quoted_iff hStart rfl).mpr ⟨_, readQuoted_escaped h rest, ?_⟩
  rw [String.ofList_toList]

/-- Digits without underscores are read as the integer that they stand for. -/
theorem readNumber_int {first : Char} {more rest : List Char} {n : Int64}
    (hMore : ∀ c ∈ more, isNumberChar c = true) (hDigits : ∀ c ∈ first :: more, c ≠ '_')
    (hRest : Stops isNumberChar rest) (hValue : Number.int64? (first :: more) = some n) :
    Reads (readNumber first (more ++ rest)) (.int n) rest := by
  obtain ⟨hTake, hDrop⟩ := span_append hMore hRest
  have hFilter : (first :: (more ++ rest).takeWhile isNumberChar).filter (· != '_') =
      first :: more := by
    rw [hTake]
    exact List.filter_eq_self.mpr fun c hm => bne_iff_ne.mpr (hDigits c hm)
  rw [readNumber]
  simp only [hFilter, hValue]
  exact ⟨_, rfl, rfl, hDrop⟩

/-- The text of an integer is read as a constant. -/
theorem readConstant_int (n : Int64) {text rest : List Char} (hRest : Ends rest)
    (hText : trimStart text = trimStart ((Constant.int n).text.toList ++ rest)) :
    Reads (readConstant text) (.int n) rest := by
  have hValue := Number.int64?_toString n
  obtain ⟨first, more, hChars, hFirst, hMore⟩ := Number.exists_cons_toString n.toInt
  rw [hChars] at hValue
  have hStart : trimStart text = first :: (more ++ rest) := by
    rw [hText, Constant.text, hChars, List.cons_append, trimStart_cons]
    rcases hFirst with rfl | hDigit
    · decide
    · exact isBlank_of_isDigit hDigit
  have hMark : '_'.isDigit = false ∧ '_' ≠ '-' := by decide
  refine (readConstant_number_iff hStart ?_ ?_).mpr
    (readNumber_int (fun c hm => ?_) (fun c hm => ?_) (hRest.stops (by decide) (by decide)) hValue)
  · rw [isQuote, Bool.or_eq_false_iff, beq_eq_false_iff_ne, beq_eq_false_iff_ne]
    rcases hFirst with rfl | hDigit
    · decide
    · constructor <;> rintro rfl <;> exact absurd hDigit (by decide)
  · rcases hFirst with rfl | hDigit
    · rfl
    · rw [startsNumber, hDigit, Bool.true_or]
  · simp only [isNumberChar, hMore c hm, Bool.true_or]
  · rintro rfl
    rcases List.mem_cons.mp hm with rfl | hm
    · rcases hFirst with he | hDigit
      · exact hMark.2 he
      · exact absurd hDigit (by rw [hMark.1]; exact nofun)
    · exact absurd (hMore _ hm) (by rw [hMark.1]; exact nofun)

theorem readConstant_bool (b : Bool) {text rest : List Char} (hRest : Ends rest)
    (hText : trimStart text = trimStart ((Constant.bool b).text.toList ++ rest)) :
    Reads (readConstant text) (.bool b) rest := by
  have hStops : Stops isNameChar rest := hRest.stops (by decide) (by decide)
  cases b with
  | true =>
      rw [trimStart_word (by decide)] at hText
      exact (readConstant_word_iff hText rfl rfl).mpr
        ⟨"True", rest, @readName_word "True" (by decide) _ hStops, .inl ⟨.inl rfl, rfl⟩, rfl⟩
  | false =>
      rw [trimStart_word (by decide)] at hText
      exact (readConstant_word_iff hText rfl rfl).mpr
        ⟨"False", rest, @readName_word "False" (by decide) _ hStops, .inr ⟨.inl rfl, rfl⟩, rfl⟩

/-- All constants but fractions and strings with backslashes read back from their texts. -/
theorem readConstant_text {value : Constant} (h : value.IsPlain) {text rest : List Char}
    (hRest : Ends rest) (hText : trimStart text = trimStart (value.text.toList ++ rest)) :
    Reads (readConstant text) value rest := by
  cases value with
  | bool b => exact readConstant_bool b hRest hText
  | int n => exact readConstant_int n hRest hText
  | float x => cases h
  | str value => exact readConstant_str h hText

/-- A tag without quotes and backslashes reads back from between its quotes. -/
theorem readTag_text {tag : String} (hQuote : '\'' ∉ tag.toList) (hBackslash : '\\' ∉ tag.toList)
    {text rest : List Char} (hText : trimStart text = '\'' :: (tag.toList ++ '\'' :: rest)) :
    Reads (readTag text) tag rest := by
  have hEscaped : tag.toList.flatMap Constant.escapeQuote = tag.toList := by
    refine (List.flatMap_congr fun c hm => ?_).trans (List.flatMap_singleton' _)
    exact if_neg fun he : c = '\'' => hQuote (he ▸ hm)
  refine (readTag_quoted_iff hText rfl).mpr ⟨tag.toList, ?_, String.ofList_toList.symm⟩
  have hQuoted := readQuoted_escaped hBackslash rest
  rwa [hEscaped] at hQuoted

end TypeExpr

end ToolSchema
