import ToolSchema.Text.Basic

/-! Texts without white space at their ends, and texts taken apart into lines
and put together again. -/
namespace ToolSchema.Text

/-! White space at the ends -/

/-- The text starts with a character that is no white space. -/
def Opens (text : List Char) : Prop := ∃ c rest, text = c :: rest ∧ isBlank c = false

/-- The text ends with a character that is no white space. -/
def Closes (text : List Char) : Prop := ∃ front c, text = front ++ [c] ∧ isBlank c = false

section

variable {front back text : List Char}

theorem Opens.append (h : Opens front) (back : List Char) : Opens (front ++ back) := by
  obtain ⟨c, rest, rfl, hBlank⟩ := h
  exact ⟨c, rest ++ back, rfl, hBlank⟩

theorem Closes.behind (h : Closes back) (front : List Char) : Closes (front ++ back) := by
  obtain ⟨before, c, rfl, hBlank⟩ := h
  exact ⟨front ++ before, c, (List.append_assoc ..).symm, hBlank⟩

theorem Opens.ne_nil (h : Opens text) : text ≠ [] := by
  obtain ⟨c, rest, rfl, -⟩ := h
  exact List.cons_ne_nil c rest

theorem Closes.ne_nil (h : Closes text) : text ≠ [] := by
  obtain ⟨front, c, rfl, -⟩ := h
  exact List.concat_ne_nil c front

/-- The end of a text is the start of its reverse. -/
theorem closes_iff_opens_reverse : Closes text ↔ Opens text.reverse := by
  constructor
  · intro h
    obtain ⟨front, c, rfl, hBlank⟩ := h
    exact ⟨c, front.reverse, List.reverse_concat .., hBlank⟩
  · intro h
    obtain ⟨c, rest, he, hBlank⟩ := h
    exact ⟨rest.reverse, c, by rw [← List.reverse_cons, ← he, List.reverse_reverse], hBlank⟩

theorem Opens.trimStart_eq (h : Opens text) : trimStart text = text := by
  obtain ⟨c, rest, rfl, hBlank⟩ := h
  exact List.dropWhile_cons_of_neg (by rw [hBlank]; exact nofun)

theorem Closes.trimEnd_eq (h : Closes text) : trimEnd text = text := by
  rw [trimEnd, (closes_iff_opens_reverse.mp h).trimStart_eq, List.reverse_reverse]

theorem trim_eq_self (hOpens : Opens text) (hCloses : Closes text) : trim text = text := by
  rw [trim, hOpens.trimStart_eq, hCloses.trimEnd_eq]

/-- A text that trimming leaves as it is has no white space at its start. -/
theorem opens_of_trimStart_eq (h : trimStart text = text) (hText : text ≠ []) : Opens text := by
  cases text with
  | nil => exact absurd rfl hText
  | cons c rest =>
      refine ⟨c, rest, rfl, Bool.eq_false_iff.mpr fun hBlank => ?_⟩
      have hLength := trimStart_length_le rest
      rw [trimStart, List.dropWhile_cons_of_pos hBlank] at h
      rw [trimStart, h, List.length_cons] at hLength
      exact Nat.not_succ_le_self _ hLength

theorem trimEnd_length_le (text : List Char) : (trimEnd text).length ≤ text.length := by
  have hLength := trimStart_length_le text.reverse
  rwa [List.length_reverse, ← List.length_reverse] at hLength

theorem closes_of_trimEnd_eq (h : trimEnd text = text) (hText : text ≠ []) : Closes text := by
  have hReverse : trimStart text.reverse = text.reverse := by
    rw [← List.reverse_reverse (trimStart text.reverse), ← trimEnd, h]
  exact closes_iff_opens_reverse.mpr
    (opens_of_trimStart_eq hReverse (by rwa [ne_eq, List.reverse_eq_nil_iff]))

theorem opens_of_forall (hText : text ≠ []) (h : ∀ c ∈ text, isBlank c = false) : Opens text := by
  obtain ⟨c, rest, rfl⟩ := List.exists_cons_of_ne_nil hText
  exact ⟨c, rest, rfl, h c List.mem_cons_self⟩

theorem closes_of_forall (hText : text ≠ []) (h : ∀ c ∈ text, isBlank c = false) : Closes text :=
  closes_iff_opens_reverse.mpr <| opens_of_forall (by rwa [ne_eq, List.reverse_eq_nil_iff])
    fun c hm => h c (List.mem_reverse.mp hm)

/-- A text that is not empty and does not change when it is trimmed has no white space at
its ends. -/
theorem opens_closes_of_trim_eq (h : trim text = text) (hText : text ≠ []) :
    Opens text ∧ Closes text := by
  have hLength : text.length ≤ (trimStart text).length := by
    have hEnd := trimEnd_length_le (trimStart text)
    rwa [← trim, h] at hEnd
  have hStart : trimStart text = text :=
    (List.dropWhile_suffix isBlank).eq_of_length
      (Nat.le_antisymm (trimStart_length_le text) hLength)
  rw [trim, hStart] at h
  exact ⟨opens_of_trimStart_eq hStart hText, closes_of_trimEnd_eq h hText⟩

/-- White space before a text is trimmed, and nothing else. -/
theorem trimStart_append_of_blank {blanks : List Char} (hBlanks : ∀ c ∈ blanks, isBlank c = true)
    (hOpens : Opens text) : trimStart (blanks ++ text) = text := by
  rw [trimStart, List.dropWhile_append_of_pos hBlanks]
  exact hOpens.trimStart_eq

/-- White space behind a text is trimmed, and nothing else. -/
theorem trimEnd_append_of_blank {blanks : List Char} (hBlanks : ∀ c ∈ blanks, isBlank c = true)
    (hCloses : Closes text) : trimEnd (text ++ blanks) = text := by
  rw [trimEnd, List.reverse_append, trimStart_append_of_blank
    (fun c hm => hBlanks c (List.mem_reverse.mp hm)) (closes_iff_opens_reverse.mp hCloses),
    List.reverse_reverse]

theorem trim_append_of_blank {blanks : List Char} (hBlanks : ∀ c ∈ blanks, isBlank c = true)
    (hOpens : Opens text) (hCloses : Closes text) : trim (blanks ++ text) = text := by
  rw [trim, trimStart_append_of_blank hBlanks hOpens, hCloses.trimEnd_eq]

/-- White space at both ends is trimmed, and nothing else. -/
theorem trim_of_blank_ends {before after : List Char} (hBefore : ∀ c ∈ before, isBlank c = true)
    (hAfter : ∀ c ∈ after, isBlank c = true) (hOpens : Opens text) (hCloses : Closes text) :
    trim (before ++ (text ++ after)) = text := by
  rw [trim, trimStart_append_of_blank hBefore (hOpens.append after),
    trimEnd_append_of_blank hAfter hCloses]

theorem exists_blanks_trimStart (text : List Char) :
    ∃ blanks, text = blanks ++ trimStart text ∧ ∀ c ∈ blanks, isBlank c = true :=
  ⟨_, List.takeWhile_append_dropWhile.symm, List.all_eq_true.mp List.all_takeWhile⟩

/-- What is trimmed off a text is white space. -/
theorem exists_blank_ends (text : List Char) :
    ∃ before after, text = before ++ (trim text ++ after) ∧ (∀ c ∈ before, isBlank c = true) ∧
      ∀ c ∈ after, isBlank c = true := by
  obtain ⟨before, hStart, hBefore⟩ := exists_blanks_trimStart text
  obtain ⟨after, hEnd, hAfter⟩ := exists_blanks_trimStart (trimStart text).reverse
  have hSplit : trimStart text = trim text ++ after.reverse := by
    have hReverse := congrArg List.reverse hEnd
    rwa [List.reverse_reverse, List.reverse_append] at hReverse
  refine ⟨before, after.reverse, ?_, hBefore, fun c hm => hAfter c (List.mem_reverse.mp hm)⟩
  rw [← hSplit]
  exact hStart

theorem mem_trimStart {c : Char} (hm : c ∈ text) (hBlank : isBlank c = false) :
    c ∈ trimStart text := by
  rw [← List.takeWhile_append_dropWhile (p := isBlank) (l := text)] at hm
  rcases List.mem_append.mp hm with hm | hm
  · have hInside := List.all_eq_true.mp List.all_takeWhile c hm
    rw [hBlank] at hInside
    cases hInside
  · exact hm

/-- What is no white space stays when a text is trimmed. -/
theorem mem_trim {c : Char} (hm : c ∈ text) (hBlank : isBlank c = false) : c ∈ trim text := by
  refine List.mem_reverse.mpr (mem_trimStart (List.mem_reverse.mpr ?_) hBlank)
  exact mem_trimStart hm hBlank

/-- A text that starts with something else is not blank. -/
theorem allBlank_of_opens (h : Opens text) : allBlank text = false := by
  obtain ⟨c, rest, rfl, hBlank⟩ := h
  rw [allBlank, List.all_cons, hBlank, Bool.false_and]

theorem allBlank_of_closes (h : Closes text) : allBlank text = false := by
  rw [allBlank, ← List.all_reverse]
  exact allBlank_of_opens (closes_iff_opens_reverse.mp h)

theorem trimEnd_of_allBlank (h : allBlank text = true) : trimEnd text = [] := by
  have hAll : ∀ c ∈ text.reverse, isBlank c = true := fun c hm =>
    List.all_eq_true.mp h c (List.mem_reverse.mp hm)
  have hTrim : trimStart (text.reverse ++ []) = [] := List.dropWhile_append_of_pos hAll
  rw [trimEnd, ← List.append_nil text.reverse, hTrim, List.reverse_nil]

end

/-! A mark inside a text -/

/-- What stands before the first mark, and what stands from it on. -/
theorem span_append_cons {α : Type} {p : α → Bool} {front back : List α} {mark : α}
    (hFront : ∀ x ∈ front, p x = true) (hMark : p mark = false) :
    (front ++ mark :: back).takeWhile p = front ∧
      (front ++ mark :: back).dropWhile p = mark :: back := by
  have hStop : ¬ p mark = true := by rw [hMark]; exact nofun
  rw [List.takeWhile_append_of_pos hFront, List.dropWhile_append_of_pos hFront,
    List.takeWhile_cons_of_neg hStop, List.dropWhile_cons_of_neg hStop]
  exact ⟨List.append_nil front, rfl⟩

/-! Lines -/

theorem unlines_cons {line : List Char} {more : List (List Char)} (h : more ≠ []) :
    unlines (line :: more) = line ++ '\n' :: unlines more := by
  cases more with
  | nil => exact absurd rfl h
  | cons next more => rfl

/-- An empty last line shows as a line feed at the end. -/
theorem unlines_concat_nil {block : List (List Char)} (h : block ≠ []) :
    unlines (block ++ [[]]) = unlines block ++ ['\n'] := by
  induction block with
  | nil => exact absurd rfl h
  | cons line more ih =>
      cases more with
      | nil => rfl
      | cons next more =>
          have hMore := List.cons_ne_nil next more
          rw [List.cons_append, unlines_cons (List.append_ne_nil_of_left_ne_nil hMore _), ih hMore,
            unlines_cons hMore, List.append_assoc]
          rfl

/-- The start of a block of lines is the start of its first one. -/
theorem Opens.unlines {line : List Char} (h : Opens line) (more : List (List Char)) :
    Opens (unlines (line :: more)) := by
  cases more with
  | nil => exact h
  | cons next more => exact h.append _

/-- The end of a block of lines is the end of its last one. -/
theorem closes_unlines {block : List (List Char)} (hBlock : block ≠ [])
    (h : ∀ line ∈ block.getLast?, Closes line) : Closes (unlines block) := by
  induction block with
  | nil => exact absurd rfl hBlock
  | cons line more ih =>
      cases more with
      | nil => exact h line rfl
      | cons next more =>
          have hMore := List.cons_ne_nil next more
          rw [unlines_cons hMore, ← List.singleton_append, ← List.append_assoc]
          exact (ih hMore h).behind _

/-- A block of lines holds the characters of its lines, and line feeds. -/
theorem mem_unlines {c : Char} {block : List (List Char)} (h : c ∈ unlines block) :
    c = '\n' ∨ ∃ line ∈ block, c ∈ line := by
  induction block with
  | nil => cases h
  | cons line more ih =>
      cases more with
      | nil => exact .inr ⟨line, List.mem_cons_self, h⟩
      | cons next more =>
          rw [unlines_cons (List.cons_ne_nil next more)] at h
          rcases List.mem_append.mp h with hm | hm
          · exact .inr ⟨line, List.mem_cons_self, hm⟩
          · rcases List.mem_cons.mp hm with rfl | hm
            · exact .inl rfl
            · refine (ih hm).imp_right ?_
              rintro ⟨other, hOther, hc⟩
              exact ⟨other, List.mem_cons_of_mem _ hOther, hc⟩

/-- A line without a line feed is one piece. -/
theorem splitFeeds_line {line : List Char} (h : '\n' ∉ line) : splitFeeds line = [line] := by
  induction line with
  | nil => rfl
  | cons c rest ih =>
      rw [List.mem_cons, not_or] at h
      rw [splitFeeds, if_neg (Ne.symm h.1), ih h.2]

/-- The text up to the first line feed is the first piece. -/
theorem splitFeeds_append {line : List Char} (h : '\n' ∉ line) (rest : List Char) :
    splitFeeds (line ++ '\n' :: rest) = line :: splitFeeds rest := by
  induction line with
  | nil => rw [List.nil_append, splitFeeds, if_pos rfl]
  | cons c more ih =>
      rw [List.mem_cons, not_or] at h
      rw [List.cons_append, splitFeeds, if_neg (Ne.symm h.1), ih h.2]

theorem splitFeeds_ne_nil (text : List Char) : splitFeeds text ≠ [] := by
  cases text with
  | nil => exact List.cons_ne_nil _ _
  | cons c rest =>
      rw [splitFeeds]
      split
      · exact List.cons_ne_nil _ _
      · split <;> exact List.cons_ne_nil _ _

theorem lines_line {line : List Char} (hFeeds : '\n' ∉ line) (hLine : line ≠ []) :
    lines line = [line] := by
  rw [lines, splitFeeds_line hFeeds, closeLines, if_neg (by rwa [List.isEmpty_iff])]

/-- A line with its line feed is split off from what follows. -/
theorem lines_append {line : List Char} (h : '\n' ∉ line) (rest : List Char) :
    lines (line ++ '\n' :: rest) = dropReturn line :: lines rest := by
  rw [lines, splitFeeds_append h, closeLines, lines]
  exact splitFeeds_ne_nil rest

/-- Lines that are put together come apart again. -/
theorem splitFeeds_unlines {block : List (List Char)} (hBlock : block ≠ [])
    (h : ∀ line ∈ block, '\n' ∉ line) : splitFeeds (unlines block) = block := by
  induction block with
  | nil => exact absurd rfl hBlock
  | cons line more ih =>
      rw [List.forall_mem_cons] at h
      cases more with
      | nil => exact splitFeeds_line h.1
      | cons next more =>
          have hMore := List.cons_ne_nil next more
          rw [unlines_cons hMore, splitFeeds_append h.1, ih hMore h.2]

/-- Only a carriage return is taken from the end. -/
theorem dropReturn_append {c : Char} (h : c ≠ '\r') (front : List Char) :
    dropReturn (front ++ [c]) = front ++ [c] := by
  induction front with
  | nil =>
      rw [List.nil_append, dropReturn]
      · rfl
      · exact fun he _ => h he
  | cons first front ih =>
      rw [List.cons_append, dropReturn, ih]
      exact fun _ he => List.append_ne_nil_of_right_ne_nil front (List.cons_ne_nil c []) he

/-- A line without white space at its end has no carriage return there. -/
theorem dropReturn_eq_self {line : List Char} (h : trimEnd line = line) :
    dropReturn line = line := by
  by_cases hLine : line = []
  · rw [hLine, dropReturn]
  · obtain ⟨front, c, rfl, hBlank⟩ := closes_of_trimEnd_eq h hLine
    refine dropReturn_append ?_ front
    rintro rfl
    exact absurd hBlank (by decide)

/-- Lines without white space at their ends are kept as they are. -/
theorem closeLines_eq_self {block : List (List Char)} (h : ∀ line ∈ block, trimEnd line = line)
    (hLast : ∀ line ∈ block.getLast?, line ≠ []) : closeLines block = block := by
  induction block with
  | nil => rfl
  | cons line more ih =>
      rw [List.forall_mem_cons] at h
      cases more with
      | nil =>
          have hLine : line ≠ [] := hLast line rfl
          rw [closeLines, if_neg (by rwa [List.isEmpty_iff])]
      | cons next more =>
          rw [closeLines, dropReturn_eq_self h.1, ih h.2 hLast]
          exact List.cons_ne_nil next more

/-- Lines that are written one below the other are the lines of the text. -/
theorem lines_unlines {block : List (List Char)} (hFeeds : ∀ line ∈ block, '\n' ∉ line)
    (hEnds : ∀ line ∈ block, trimEnd line = line) (hLast : ∀ line ∈ block.getLast?, line ≠ []) :
    lines (unlines block) = block := by
  cases block with
  | nil => rfl
  | cons line more =>
      rw [lines, splitFeeds_unlines (List.cons_ne_nil line more) hFeeds,
        closeLines_eq_self hEnds hLast]

end ToolSchema.Text
