import ToolSchema.Documentation.Reading
import ToolSchema.Proofs.Documentation.Margin

/-! Documentation that is written further to the right says the same. All lines but the
first gain the same indentation, and their margin gains it too. -/
namespace ToolSchema.Documentation

open Text

/-- The text with `width` spaces before every line but the first. No line stands behind a
last line feed, and the spaces there are counted apart. -/
def indentLater (width last : Nat) : List Char → List Char
  | [] => []
  | c :: rest =>
    if c = '\n' then
      '\n' :: indent (if rest.isEmpty then last else width) (indentLater width last rest)
    else c :: indentLater width last rest

theorem indentLater_append {front : List Char} (h : '\n' ∉ front) (width last : Nat)
    (back : List Char) :
    indentLater width last (front ++ back) = front ++ indentLater width last back := by
  induction front with
  | nil => rfl
  | cons c front ih =>
      rw [List.mem_cons, not_or] at h
      rw [List.cons_append, indentLater, if_neg (Ne.symm h.1), ih h.2, List.cons_append]

theorem indentLater_line {line : List Char} (h : '\n' ∉ line) (width last : Nat) :
    indentLater width last line = line := by
  simpa [indentLater] using indentLater_append h width last []

/-- Tabs may be expanded before or after the lines are moved. -/
theorem expandTabs_indentLater (width last : Nat) (text : List Char) :
    expandTabs (indentLater width last text) = indentLater width last (expandTabs text) := by
  have hCons (c : Char) (rest : List Char) :
      expandTabs (c :: rest) = expandTabs [c] ++ expandTabs rest := by
    simp [expandTabs]
  have hIndent (width : Nat) (text : List Char) :
      expandTabs (indent width text) = indent width (expandTabs text) := by
    simp [indent, expandTabs, List.flatMap_replicate]
  induction text with
  | nil => rfl
  | cons c rest ih =>
      by_cases hFeed : c = '\n'
      · subst hFeed
        have hEmpty : (expandTabs rest).isEmpty = rest.isEmpty := by
          cases rest with
          | nil => rfl
          | cons next rest =>
              rw [expandTabs, List.flatMap_cons]
              split <;> rfl
        rw [indentLater, if_pos rfl, hCons '\n', hIndent, ih, hCons '\n' rest]
        change _ = indentLater width last ('\n' :: expandTabs rest)
        rw [indentLater, if_pos rfl, hEmpty]
        rfl
      · have hOther : '\n' ∉ expandTabs [c] := by
          simp only [expandTabs, List.flatMap_singleton]
          split
          · simp
          · simpa using Ne.symm hFeed
        rw [indentLater, if_neg hFeed, hCons c (indentLater width last rest), ih, hCons c rest,
          indentLater_append hOther]

/-- A carriage return at the end of a line does not see what is before the line. -/
theorem dropReturn_indent (width : Nat) (line : List Char) :
    dropReturn (indent width line) = indent width (dropReturn line) := by
  induction width with
  | zero => rfl
  | succ width ih =>
      change dropReturn (' ' :: indent width line) = ' ' :: indent width (dropReturn line)
      rw [dropReturn, ih]
      exact fun he => absurd he (by decide)

/-- All lines of the rest of a text are indented. Spaces behind a last line feed may make one more
line, which is blank. -/
theorem exists_lines_indentLater (width last : Nat) (text : List Char) :
    ∃ blanks, (∀ line ∈ blanks, allBlank line = true) ∧
      lines (indent (if text.isEmpty then last else width) (indentLater width last text)) =
        (lines text).map (indent width) ++ blanks := by
  induction hLength : text.length using Nat.strongRecOn generalizing text with
  | ind n ih =>
      subst hLength
      by_cases hFeed : '\n' ∈ text
      · obtain ⟨line, rest, rfl, hLine⟩ := List.eq_append_cons_of_mem hFeed
        have hShorter : rest.length < (line ++ '\n' :: rest).length := by
          simp only [List.length_append, List.length_cons]
          omega
        obtain ⟨blanks, hBlanks, hRest⟩ := ih _ hShorter rest rfl
        have hIndented : '\n' ∉ indent width line := by simpa [indent] using hLine
        have hSplit : indent width (indentLater width last (line ++ '\n' :: rest)) =
            indent width line ++ '\n' ::
              indent (if rest.isEmpty then last else width) (indentLater width last rest) := by
          rw [indentLater_append hLine, indentLater, if_pos rfl]
          exact (List.append_assoc ..).symm
        refine ⟨blanks, hBlanks, ?_⟩
        rw [if_neg (by simp), hSplit, lines_append hIndented, hRest, lines_append hLine,
          dropReturn_indent, List.map_cons, List.cons_append]
      · rw [indentLater_line hFeed]
        cases text with
        | nil =>
            refine ⟨lines (indent last []), fun line hm => ?_, rfl⟩
            by_cases hEmpty : indent last [] = []
            · rw [hEmpty] at hm
              cases hm
            · rw [lines_line (by simp [indent]) hEmpty, List.mem_singleton] at hm
              rw [hm, indent, List.append_nil]
              exact List.all_eq_true.mpr fun c => isBlank_of_mem_replicate
        | cons c rest =>
            have hIndented : '\n' ∉ indent width (c :: rest) := by simpa [indent] using hFeed
            refine ⟨[], fun _ hm => absurd hm List.not_mem_nil, ?_⟩
            rw [List.isEmpty_cons, if_neg Bool.false_ne_true, lines_line hIndented (by simp [indent]),
              lines_line hFeed (List.cons_ne_nil c rest)]
            rfl

/-! Cleaning -/

/-- Blank lines at the end are dropped, however many there are. -/
theorem dropBlankEnds_append {blanks : List (List Char)}
    (hBlanks : ∀ line ∈ blanks, allBlank line = true) (block : List (List Char)) :
    dropBlankEnds (block ++ blanks) = dropBlankEnds block := by
  have hReverse : ∀ line ∈ blanks.reverse, allBlank line = true := fun line hm =>
    hBlanks line (List.mem_reverse.mp hm)
  have hAll : (blanks ++ []).dropWhile allBlank = [] := List.dropWhile_append_of_pos hBlanks
  rw [dropBlankEnds, dropBlankEnds, List.dropWhile_append]
  split
  · next hEmpty => rw [← List.append_nil blanks, hAll, List.isEmpty_iff.mp hEmpty]
  · rw [List.reverse_append, List.dropWhile_append_of_pos hReverse]

/-- Each line loses its indentation together with the margin. -/
theorem trimEnd_dropMargin_indented (width : Nat) {block blanks : List (List Char)}
    (hBlanks : ∀ line ∈ blanks, allBlank line = true) {line : List Char} (hm : line ∈ block) :
    trimEnd (dropMargin (marginOf (block.map (indent width) ++ blanks)) (indent width line)) =
      trimEnd (dropMargin (marginOf block) line) := by
  cases hBlank : allBlank line with
  | false => rw [marginOf_indent_append width hBlanks ⟨line, hm, hBlank⟩, dropMargin_add_indent]
  | true =>
      rw [trimEnd_dropMargin_of_allBlank hBlank, trimEnd_dropMargin_of_allBlank]
      rwa [allBlank_indent_eq]

/-- Cleaning gives the same lines, so nothing behind it can tell how far the text was indented. -/
theorem cleanLines_indentLater (width last : Nat) (text : List Char) :
    cleanLines (indentLater width last text) = cleanLines text := by
  rw [cleanLines, expandTabs_indentLater, cleanLines]
  generalize expandTabs text = text
  by_cases hFeed : '\n' ∈ text
  · obtain ⟨first, rest, rfl, hFirst⟩ := List.eq_append_cons_of_mem hFeed
    obtain ⟨blanks, hBlanks, hRest⟩ := exists_lines_indentLater width last rest
    rw [indentLater_append hFirst, indentLater, if_pos rfl, lines_append hFirst, hRest,
      lines_append hFirst]
    dsimp only
    -- The line that may be added at the end counts neither for the margin nor for the result.
    have hLines : ((lines rest).map (indent width) ++ blanks).map (fun line =>
        trimEnd (dropMargin (marginOf ((lines rest).map (indent width) ++ blanks)) line)) =
          (lines rest).map (fun line => trimEnd (dropMargin (marginOf (lines rest)) line)) ++
            blanks.map fun _ => [] := by
      rw [List.map_append, List.map_map]
      congr 1
      · exact List.map_congr_left fun line hm => trimEnd_dropMargin_indented width hBlanks hm
      · exact List.map_congr_left fun line hm => trimEnd_dropMargin_of_allBlank (hBlanks line hm) _
    rw [hLines, ← List.cons_append, dropBlankEnds_append]
    exact List.forall_mem_map.mpr fun _ _ => rfl
  · rw [indentLater_line hFeed]

/-- The indentation at which documentation is written does not matter, in no layout. -/
theorem indentation_without_influence (width last : Nat) (text : String) :
    clean (indentLater width last text.toList) = clean text.toList ∧
      (∀ layout, readAs layout (.ofList (indentLater width last text.toList)) =
        readAs layout text) ∧
      read (.ofList (indentLater width last text.toList)) = read text := by
  have hClean : clean (indentLater width last text.toList) = clean text.toList := by
    rw [clean, cleanLines_indentLater, clean]
  have hReadAs (layout : Layout) : readAs layout (.ofList (indentLater width last text.toList)) =
      readAs layout text := by
    rw [readAs, String.toList_ofList, hClean, readAs]
  refine ⟨hClean, hReadAs, ?_⟩
  rw [read, funext hReadAs, read]

end ToolSchema.Documentation
