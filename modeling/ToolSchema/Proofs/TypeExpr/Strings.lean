import ToolSchema.Proofs.TypeExpr.RoundTrip
import ToolSchema.Proofs.TypeExpr.Tokens

/-! Strings between quotes. Writing puts a backslash in front of quotes only, but reading
takes the character after any backslash as it is. So exactly the strings without a
backslash are read back. -/
namespace ToolSchema.TypeExpr

open Grammar (Quoted quoted_iff reads_unique)
open Text (trimStart)

/-! Lengths -/

/-- Writing adds one character for each quote, and none for a backslash. -/
theorem length_escaped (chars : List Char) :
    (chars.flatMap Constant.escapeQuote).length = chars.length + chars.count '\'' := by
  induction chars with
  | nil => rfl
  | cons c chars ih =>
      rw [List.flatMap_cons, List.length_append, ih, Constant.escapeQuote, List.length_cons,
        List.count_cons]
      by_cases hQuote : c = '\''
      · rw [if_pos hQuote, if_pos (beq_iff_eq.mpr hQuote)]
        simp only [List.length_cons, List.length_nil]
        omega
      · rw [if_neg hQuote, if_neg (fun h => hQuote (beq_iff_eq.mp h))]
        simp only [List.length_cons, List.length_nil]
        omega

/-- Inside quotes a quote and a backslash take up two characters of the text each. -/
theorem length_lt_of_quoted {quote : Char} (hQuote : quote ≠ '\\') {text chars rest : List Char}
    (h : Quoted quote text chars rest) :
    chars.length + chars.count quote + chars.count '\\' + rest.length < text.length := by
  induction h with
  | close rest => simp
  | escape c _ ih =>
      -- A character is not both a quote and a backslash.
      have hOne : (if c = quote then 1 else 0) + (if c = '\\' then 1 else 0) ≤ 1 := by
        by_cases hc : c = quote
        · rw [if_pos hc, if_neg fun h => hQuote (hc.symm.trans h)]
        · rw [if_neg hc]
          split <;> decide
      simp only [List.count_cons, List.length_cons, beq_iff_eq]
      omega
  | char hBackslash hOther _ ih =>
      rw [List.count_cons_of_ne hOther, List.count_cons_of_ne hBackslash, List.length_cons,
        List.length_cons]
      omega

/-! Literals -/

/-- A literal with one value holds the text of a constant up to a bracket. -/
theorem readConstant_of_parse {names : Names} {inside : String} {value : Constant}
    (h : parse names ("Literal[" ++ inside ++ "]") = .ok (.literal [value])) : ∃ mid after,
      Reads (readConstant (inside.toList ++ [']'])) value mid ∧ trimStart mid = ']' :: after := by
  obtain ⟨rest, hRead, _⟩ := parse_eq_ok_iff.mp h
  have hText : ("Literal[" ++ inside ++ "]").toList =
      "Literal".toList ++ '[' :: (inside.toList ++ [']']) := by
    rw [String.toList_append, String.toList_append, List.append_assoc]
    rfl
  rw [hText] at hRead
  obtain ⟨first, mid, hFirst, more, close, _, hType, _⟩ := readUnion_iff.mp hRead
  cases more with
  | cons second more => cases hType
  | nil =>
      cases hType
      have hStart : trimStart ("Literal".toList ++ '[' :: (inside.toList ++ [']'])) =
          "Literal".toList ++ '[' :: (inside.toList ++ [']']) := trimStart_word (by decide) _
      rw [readPrimary_word_iff (by rw [hStart]; exact nofun) (by rw [hStart]; exact nofun),
        hStart] at hFirst
      obtain ⟨path, after, hPath, hWord⟩ := hFirst
      obtain ⟨rfl, rfl⟩ :=
        reads_unique hPath (@readName_word "Literal" (by decide) _ (stops_bracket _))
      obtain ⟨_, hOpen, values, hValues, hLiteral⟩ := hWord
      rw [trimStart_cons (by decide)] at hOpen
      cases hOpen
      cases hLiteral
      obtain ⟨constant, close', hConstant, others, close, hOthers, after, hClose, hList, _⟩ :=
        readConstants_iff.mp hValues
      cases hList
      cases hOthers
      exact ⟨_, after, hConstant, hClose⟩

section

variable {names : Names} {value : String}

/-- A backslash is lost in reading, so the text that is read is shorter than the one that was
written. -/
theorem not_mem_of_parse_literal
    (h : parse names ("Literal[" ++ (Constant.str value).text ++ "]") =
      .ok (.literal [.str value])) :
    '\\' ∉ value.toList := by
  obtain ⟨mid, after, hConstant, hClose⟩ := readConstant_of_parse h
  have hStart : trimStart ((Constant.str value).text.toList ++ [']']) =
      '\'' :: (value.toList.flatMap Constant.escapeQuote ++ ['\'', ']']) := by
    rw [Constant.text, String.toList_ofList, List.append_assoc]
    exact trimStart_cons (by decide) _
  obtain ⟨chars, hChars, hValue⟩ := (readConstant_quoted_iff hStart rfl).mp hConstant
  cases hValue
  have hLength := length_lt_of_quoted (by decide) ((quoted_iff (by decide)).mpr hChars)
  -- The bracket is still unread, so there is no room for a backslash in the string.
  have hUnread : 0 < mid.length := by
    rw [List.length_pos_iff]
    rintro rfl
    cases hClose
  rw [String.toList_ofList] at hLength ⊢
  rw [List.length_append, length_escaped, List.length_cons, List.length_singleton] at hLength
  exact List.count_eq_zero.mp (by omega)

/-- Without a backslash, reading takes off what writing has put in front of quotes. -/
theorem parse_literal_of_not_mem (h : '\\' ∉ value.toList) :
    parse names ("Literal[" ++ (Constant.str value).text ++ "]") = .ok (.literal [.str value]) := by
  have hDisplayable : Displayable names (.literal [.str value]) :=
    .literal (List.cons_ne_nil _ _) (List.forall_mem_singleton.mpr h)
  obtain ⟨unread, hRead, hUnread⟩ := hDisplayable.readsBack.1 [] .nothing
  rw [List.append_nil, text, List.map_singleton, String.intercalate_singleton] at hRead
  exact parse_eq_ok_iff.mpr ⟨unread, hRead, hUnread⟩

end

/-- The text of a string, written as the only value of a literal, is read as the string
if and only if there is no backslash in it. -/
theorem parse_literal_str_iff (names : Names) (value : String) :
    parse names ("Literal[" ++ (Constant.str value).text ++ "]") = .ok (.literal [.str value]) ↔
      '\\' ∉ value.toList :=
  ⟨not_mem_of_parse_literal, parse_literal_of_not_mem⟩

/-- A backslash alone is written as one, which hides the closing quote. -/
theorem lone_backslash_not_read :
    ¬ ∀ value : String, parse noNames ("Literal[" ++ (Constant.str value).text ++ "]") =
      .ok (.literal [.str value]) := by
  intro h
  exact not_mem_of_parse_literal (h "\\") (by decide)

end ToolSchema.TypeExpr
