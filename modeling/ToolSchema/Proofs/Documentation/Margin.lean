import Mathlib.Data.List.MinMax
import ToolSchema.Documentation.Margin
import ToolSchema.Proofs.Text.Lines

/-! What is left of a text when its margin is taken off: a text without a margin stays as
it is, and lines with the same indentation lose it. -/
namespace ToolSchema.Documentation

open Text

/-- The line with so many spaces before it. -/
def indent (width : Nat) (line : List Char) : List Char := List.replicate width ' ' ++ line

theorem isBlank_of_mem_replicate {width : Nat} {c : Char} (h : c ∈ List.replicate width ' ') :
    isBlank c = true := by
  rw [(List.mem_replicate.mp h).2]
  decide

/-! Single lines -/

theorem allBlank_indent_eq (width : Nat) (line : List Char) :
    allBlank (indent width line) = allBlank line := by
  have hSpaces : (List.replicate width ' ').all isBlank = true :=
    List.all_eq_true.mpr fun c => isBlank_of_mem_replicate
  rw [indent, allBlank, List.all_append, hSpaces, Bool.true_and, allBlank]

/-- A line that begins with something else is not blank, however far to the right it stands. -/
theorem allBlank_indent {width : Nat} {line : List Char} (h : Opens line) :
    allBlank (indent width line) = false := by
  rw [allBlank_indent_eq, allBlank_of_opens h]

/-- The indentation of an indented line is counted through. -/
theorem indentOf_indent_eq_add (width : Nat) (line : List Char) :
    indentOf (indent width line) = width + indentOf line := by
  rw [indentOf, indent, List.takeWhile_append_of_pos fun c => isBlank_of_mem_replicate,
    List.length_append, List.length_replicate, indentOf]

/-- A line that begins with something else has no indentation. -/
theorem indentOf_of_opens {line : List Char} (h : Opens line) : indentOf line = 0 := by
  obtain ⟨c, rest, rfl, hBlank⟩ := h
  simp [indentOf, hBlank]

theorem indentOf_indent (width : Nat) {line : List Char} (h : Opens line) :
    indentOf (indent width line) = width := by
  rw [indentOf_indent_eq_add, indentOf_of_opens h, Nat.add_zero]

theorem dropMargin_zero (line : List Char) : dropMargin 0 line = line := by
  rw [dropMargin]

/-- A margin takes off the indentation first. -/
theorem dropMargin_add_indent (width margin : Nat) (line : List Char) :
    dropMargin (width + margin) (indent width line) = dropMargin margin line := by
  induction width with
  | zero =>
      rw [Nat.zero_add]
      rfl
  | succ width ih =>
      rw [Nat.add_right_comm]
      change dropMargin (width + margin + 1) (' ' :: indent width line) = _
      rw [dropMargin, if_pos (by decide), ih]

theorem dropMargin_indent (width : Nat) (line : List Char) :
    dropMargin width (indent width line) = line :=
  (dropMargin_add_indent width 0 line).trans (dropMargin_zero line)

/-- A margin is only taken off: no character is new. -/
theorem mem_of_mem_dropMargin {margin : Nat} {line : List Char} {c : Char}
    (h : c ∈ dropMargin margin line) : c ∈ line := by
  fun_induction dropMargin margin line with
  | case1 line => exact h
  | case2 => exact h
  | case3 margin first rest hBlank ih => exact List.mem_cons_of_mem first (ih h)
  | case4 => exact h

/-- Nothing is left of a blank line, whatever the margin. -/
theorem trimEnd_dropMargin_of_allBlank {line : List Char} (h : allBlank line = true)
    (margin : Nat) : trimEnd (dropMargin margin line) = [] :=
  trimEnd_of_allBlank <| List.all_eq_true.mpr fun c hm =>
    List.all_eq_true.mp h c (mem_of_mem_dropMargin hm)

theorem trim_indent (width : Nat) {line : List Char} (hOpens : Opens line) (hCloses : Closes line) :
    trim (indent width line) = line :=
  trim_append_of_blank (fun _ => isBlank_of_mem_replicate) hOpens hCloses

/-- Without tabs there is nothing to expand. -/
theorem expandTabs_eq_self {text : List Char} (h : '\t' ∉ text) : expandTabs text = text := by
  induction text with
  | nil => rfl
  | cons c rest ih =>
      rw [List.mem_cons, not_or] at h
      rw [expandTabs, List.flatMap_cons, if_neg (Ne.symm h.1), ← expandTabs, ih h.2,
        List.singleton_append]

/-- A line without tabs and without white space at its end. -/
structure Written (line : List Char) : Prop where
  feeds : '\n' ∉ line
  tabs : '\t' ∉ line
  ends : trimEnd line = line

instance (line : List Char) : Decidable (Written line) :=
  decidable_of_iff ('\n' ∉ line ∧ '\t' ∉ line ∧ trimEnd line = line)
    ⟨fun ⟨hFeeds, hTabs, hEnds⟩ => ⟨hFeeds, hTabs, hEnds⟩, fun h => ⟨h.feeds, h.tabs, h.ends⟩⟩

/-- A line stays as it is written when something is put in front of it on the same line. -/
theorem Written.behind {line : List Char} (h : Written line) (hCloses : Closes line)
    (front : List Char) (hFeeds : '\n' ∉ front) (hTabs : '\t' ∉ front) :
    Written (front ++ line) where
  feeds hm := (List.mem_append.mp hm).elim hFeeds h.feeds
  tabs hm := (List.mem_append.mp hm).elim hTabs h.tabs
  ends := (hCloses.behind front).trimEnd_eq

/-! Blocks of lines -/

/-- A line without indentation leaves no margin. -/
theorem marginOf_eq_zero {block : List (List Char)} {line : List Char} (hm : line ∈ block)
    (h : Opens line) : marginOf block = 0 := by
  have hZero : 0 ∈ (block.filter fun line => !allBlank line).map indentOf := by
    refine List.mem_map.mpr ⟨line, List.mem_filter.mpr ⟨hm, ?_⟩, indentOf_of_opens h⟩
    rw [allBlank_of_opens h]
    rfl
  have hMin : ((block.filter fun line => !allBlank line).map indentOf).min? = some 0 :=
    List.min?_eq_some_iff.mpr ⟨hZero, fun _ _ => Nat.zero_le _⟩
  rw [marginOf, hMin, Option.getD_some]

/-- The margin grows with the indentation, if there is a line that has one. Blank lines do not
count. -/
theorem marginOf_indent_append (width : Nat) {block blanks : List (List Char)}
    (hBlanks : ∀ line ∈ blanks, allBlank line = true)
    (hBlock : ∃ line ∈ block, allBlank line = false) :
    marginOf (block.map (indent width) ++ blanks) = width + marginOf block := by
  have hNone : blanks.filter (fun line => !allBlank line) = [] :=
    List.filter_eq_nil_iff.mpr fun line hm => by simp [hBlanks line hm]
  have hIndents : ((block.map (indent width) ++ blanks).filter fun line => !allBlank line).map
      indentOf = ((block.filter fun line => !allBlank line).map indentOf).map (width + ·) := by
    rw [List.filter_append, hNone, List.append_nil, List.filter_map, List.map_map, List.map_map]
    simp only [Function.comp_def, allBlank_indent_eq, indentOf_indent_eq_add]
  obtain ⟨line, hm, hLine⟩ := hBlock
  have hMem : indentOf line ∈ (block.filter fun line => !allBlank line).map indentOf :=
    List.mem_map_of_mem (List.mem_filter.mpr ⟨hm, by simp [hLine]⟩)
  rw [marginOf, marginOf, hIndents]
  cases hMin : ((block.filter fun line => !allBlank line).map indentOf).min? with
  | none =>
      rw [List.min?_eq_none_iff] at hMin
      rw [hMin] at hMem
      cases hMem
  | some margin =>
      obtain ⟨hLeast, hAll⟩ := List.min?_eq_some_iff.mp hMin
      have hShifted : (((block.filter fun line => !allBlank line).map indentOf).map
          (width + ·)).min? = some (width + margin) := by
        refine List.min?_eq_some_iff.mpr ⟨List.mem_map_of_mem hLeast, ?_⟩
        refine List.forall_mem_map.mpr fun other hOther => ?_
        exact Nat.add_le_add_left (hAll other hOther) width
      rw [hShifted, Option.getD_some, Option.getD_some]

/-- The common indentation of lines is their margin. -/
theorem marginOf_indent (width : Nat) {block : List (List Char)} (hBlock : block ≠ [])
    (h : ∀ line ∈ block, Opens line) : marginOf (block.map (indent width)) = width := by
  obtain ⟨line, hm⟩ := List.exists_mem_of_ne_nil block hBlock
  have hMargin := @marginOf_indent_append width block [] nofun
    ⟨line, hm, allBlank_of_opens (h line hm)⟩
  rwa [List.append_nil, marginOf_eq_zero hm (h line hm), Nat.add_zero] at hMargin

theorem dropWhile_allBlank_eq_self {block : List (List Char)}
    (h : ∀ line ∈ block.head?, allBlank line = false) : block.dropWhile allBlank = block := by
  cases block with
  | nil => rfl
  | cons line more => exact List.dropWhile_cons_of_neg (by rw [h line rfl]; exact nofun)

/-- A block that begins and ends with something keeps all its lines. -/
theorem dropBlankEnds_eq_self {block : List (List Char)}
    (hFirst : ∀ line ∈ block.head?, allBlank line = false)
    (hLast : ∀ line ∈ block.getLast?, allBlank line = false) : dropBlankEnds block = block := by
  rw [← List.head?_reverse] at hLast
  rw [dropBlankEnds, dropWhile_allBlank_eq_self hFirst, dropWhile_allBlank_eq_self hLast,
    List.reverse_reverse]

/-- A text without a margin and without white space at the ends of its lines is clean. -/
theorem cleanLines_unlines {first : List Char} {more : List (List Char)}
    (hWritten : ∀ line ∈ first :: more, Written line) (hFirst : Opens first)
    (hLast : ∀ line ∈ (first :: more).getLast?, line ≠ []) (hMargin : ∃ line ∈ more, Opens line) :
    cleanLines (unlines (first :: more)) = first :: more := by
  have hEnds : ∀ line ∈ first :: more, trimEnd line = line := fun line hm => (hWritten line hm).ends
  have hText : '\t' ∉ unlines (first :: more) := by
    intro hm
    rcases mem_unlines hm with he | ⟨line, hLine, hTab⟩
    · cases he
    · exact (hWritten line hLine).tabs hTab
  obtain ⟨line, hm, hOpens⟩ := hMargin
  have hMore : (more.map fun line => trimEnd (dropMargin 0 line)) = more := by
    refine (List.map_congr_left fun line hm => ?_).trans (List.map_id more)
    rw [dropMargin, hEnds line (List.mem_cons_of_mem _ hm)]
    rfl
  have hBlank : ∀ line ∈ (first :: more).getLast?, allBlank line = false := fun line hm =>
    allBlank_of_closes
      (closes_of_trimEnd_eq (hEnds line (List.mem_of_mem_getLast? hm)) (hLast line hm))
  rw [cleanLines, expandTabs_eq_self hText,
    lines_unlines (fun line hm => (hWritten line hm).feeds) hEnds hLast]
  change dropBlankEnds (trimStart first ::
    more.map fun line => trimEnd (dropMargin (marginOf more) line)) = _
  rw [marginOf_eq_zero hm hOpens, hMore, hFirst.trimStart_eq]
  refine dropBlankEnds_eq_self (fun line hm => ?_) hBlank
  cases hm
  exact allBlank_of_opens hFirst

/-- Lines with the same indentation lose it. -/
theorem dedent_indent (width : Nat) {block : List (List Char)} (hOpens : ∀ line ∈ block, Opens line)
    (hCloses : ∀ line ∈ block, Closes line) :
    dedent (block.map (indent width)) = unlines block := by
  cases block with
  | nil => rfl
  | cons first more =>
      have hBlock := List.cons_ne_nil first more
      have hLines : ((first :: more).map (indent width)).map
          (fun line => trimEnd (dropMargin width line)) = first :: more := by
        rw [List.map_map]
        refine (List.map_congr_left fun line hm => ?_).trans (List.map_id (first :: more))
        change trimEnd (dropMargin width (indent width line)) = line
        rw [dropMargin_indent, (hCloses line hm).trimEnd_eq]
      rw [dedent, marginOf_indent width hBlock hOpens, hLines]
      exact trim_eq_self ((hOpens first List.mem_cons_self).unlines more)
        (closes_unlines hBlock fun line hm => hCloses line (List.mem_of_mem_getLast? hm))

end ToolSchema.Documentation
