import Mathlib.Data.List.DropRight
import Mathlib.Data.String.Basic
import ToolSchema.Documentation.Basic
import ToolSchema.Proofs.Documentation.Margin

/-! Texts and lists cut at positions. A cut fails if its positions are out of order, past the
end or, in a text, inside a character. Taking off a margin needs cuts of lines at bytes, which
never fail. -/
namespace ToolSchema.Documentation

open Text

/-- The items from one position up to another one. -/
def slice? {α : Type} (items : List α) (start stop : Nat) : Option (List α) :=
  if start ≤ stop ∧ stop ≤ items.length then some ((items.take stop).drop start) else none

def fromByte? : Nat → List Char → Option (List Char)
  | 0, text => some text
  | _ + 1, [] => none
  | offset + 1, c :: rest =>
    if c.utf8Size ≤ offset + 1 then fromByte? (offset + 1 - c.utf8Size) rest else none

/-- A slice between two positions that stand in order. -/
theorem slice?_append {α : Type} (front middle back : List α) :
    slice? (front ++ (middle ++ back)) front.length (front.length + middle.length) =
      some middle := by
  have hBounds : front.length ≤ front.length + middle.length ∧
      front.length + middle.length ≤ (front ++ (middle ++ back)).length := by
    simp only [List.length_append]
    omega
  rw [slice?, if_pos hBounds, ← List.append_assoc, ← List.length_append, List.take_left,
    List.drop_left]

/-- A slice that would have to go backwards. -/
theorem slice?_of_lt {α : Type} (items : List α) {start stop : Nat} (h : stop < start) :
    slice? items start stop = none :=
  if_neg fun hBounds => Nat.not_le_of_lt h hBounds.1

/-- Going on by the length of a run is going on behind it. -/
theorem drop_length_takeWhile {α : Type} (p : α → Bool) (items : List α) :
    items.drop (items.takeWhile p).length = items.dropWhile p := by
  have hDrop : (items.takeWhile p ++ items.dropWhile p).drop (items.takeWhile p).length =
      items.dropWhile p := List.drop_left
  rwa [List.takeWhile_append_dropWhile] at hDrop

/-- Where a front ends there is no character to be cut. -/
theorem fromByte?_utf8Len (front back : List Char) :
    fromByte? (String.utf8Len front) (front ++ back) = some back := by
  induction front with
  | nil => rw [String.utf8Len_nil, List.nil_append, fromByte?.eq_def]
  | cons c front ih =>
      have hSize := c.utf8Size_pos
      obtain ⟨offset, hOffset⟩ : ∃ offset,
          String.utf8Len (c :: front) = offset + 1 :=
        Nat.exists_eq_succ_of_ne_zero (by rw [String.utf8Len_cons]; omega)
      have hLength := String.utf8Len_cons c front
      rw [hOffset, List.cons_append, fromByte?, if_pos (by omega), ← ih]
      congr 1
      omega

/-! Margins -/

/-- The byte at which a line goes on without its margin: where the white space behind the margin
starts or, in a line with less of it, where the white space ends. -/
def marginEnd (margin : Nat) (line : List Char) : Nat :=
  if margin < indentOf line then String.utf8Len (line.take margin)
  else String.utf8Len line - String.utf8Len (trimStart line)

/-- Takes a margin off a line with a cut at a byte. -/
def cutMargin? (margin : Nat) (line : List Char) : Option (List Char) :=
  fromByte? (marginEnd margin line) line

/-- The margin that is taken off a line is the part of it that the line has. -/
theorem dropMargin_eq_drop (margin : Nat) (line : List Char) :
    dropMargin margin line = line.drop (min margin (indentOf line)) := by
  fun_induction dropMargin margin line with
  | case1 line => rw [Nat.zero_min, List.drop_zero]
  | case2 => rw [List.drop_nil]
  | case3 margin c rest hBlank ih =>
      rw [ih, indentOf, indentOf, List.takeWhile_cons_of_pos hBlank, List.length_cons,
        Nat.succ_min_succ, List.drop_succ_cons]
  | case4 margin c rest hPlain =>
      rw [indentOf, List.takeWhile_cons_of_neg hPlain, List.length_nil, Nat.min_zero,
        List.drop_zero]

theorem drop_indentOf (line : List Char) : line.drop (indentOf line) = trimStart line :=
  drop_length_takeWhile isBlank line

/-- The cut never falls into a character, however many bytes the white space takes. -/
theorem cutMargin?_eq (margin : Nat) (line : List Char) :
    cutMargin? margin line = some (dropMargin margin line) := by
  rw [cutMargin?, marginEnd, dropMargin_eq_drop]
  by_cases hLess : margin < indentOf line
  · rw [if_pos hLess, Nat.min_eq_left (Nat.le_of_lt hLess)]
    have hCut := fromByte?_utf8Len (line.take margin) (line.drop margin)
    rwa [List.take_append_drop] at hCut
  · have hSplit := List.takeWhile_append_dropWhile (p := isBlank) (l := line)
    have hLength : String.utf8Len line =
        String.utf8Len (line.takeWhile isBlank) + String.utf8Len (trimStart line) := by
      rw [← String.utf8Len_append, trimStart, hSplit]
    rw [if_neg hLess, Nat.min_eq_right (Nat.le_of_not_lt hLess), drop_indentOf, hLength,
      Nat.add_sub_cancel]
    have hCut := fromByte?_utf8Len (line.takeWhile isBlank) (line.dropWhile isBlank)
    rwa [hSplit] at hCut

/-- A loop has a result if all its steps have one. -/
theorem mapM_eq_some_map {α β : Type} {f : α → Option β} {g : α → β} {items : List α}
    (h : ∀ item ∈ items, f item = some (g item)) : items.mapM f = some (items.map g) := by
  induction items with
  | nil => rfl
  | cons item items ih =>
      rw [List.forall_mem_cons] at h
      rw [List.mapM_cons, h.1, ih h.2]
      rfl

/-- A block of lines without their common margin. -/
def cutBlock (block : List (List Char)) : List (List Char) :=
  block.map (dropMargin (marginOf block))

def cutBlock? (block : List (List Char)) : Option (List (List Char)) :=
  block.mapM (cutMargin? (marginOf block))

/-- No cut of a margin is inside a character. -/
theorem cutBlock?_eq (block : List (List Char)) : cutBlock? block = some (cutBlock block) :=
  mapM_eq_some_map fun line _ => cutMargin?_eq _ line

/-- A block that has lost its margin has none. -/
theorem marginOf_cutBlock (block : List (List Char)) : marginOf (cutBlock block) = 0 := by
  cases hMin : ((block.filter fun line => !allBlank line).map indentOf).min? with
  | none =>
      have hZero : marginOf block = 0 := by rw [marginOf, hMin, Option.getD_none]
      rw [cutBlock, hZero, funext dropMargin_zero, List.map_id', hZero]
  | some margin =>
      have hMargin : marginOf block = margin := by rw [marginOf, hMin, Option.getD_some]
      obtain ⟨line, hLine, hIndent⟩ := List.mem_map.mp (List.min?_eq_some_iff.mp hMin).1
      obtain ⟨hm, hText⟩ := List.mem_filter.mp hLine
      refine marginOf_eq_zero (List.mem_map_of_mem hm) ?_
      have hCut : dropMargin (marginOf block) line = trimStart line := by
        rw [dropMargin_eq_drop, hMargin, ← hIndent, Nat.min_self, drop_indentOf]
      rw [hCut]
      refine opens_of_trimStart_eq ?_ ?_
      · exact List.dropWhile_idempotent isBlank line
      · intro hNone
        rw [trimStart, List.dropWhile_eq_nil_iff] at hNone
        have hBlank : allBlank line = true := List.all_eq_true.mpr hNone
        rw [hBlank] at hText
        cases hText

/-- Taking the margin off first makes no difference to what continues an item. -/
theorem dedent_cutBlock (block : List (List Char)) : dedent (cutBlock block) = dedent block := by
  rw [dedent, marginOf_cutBlock, funext dropMargin_zero, cutBlock, List.map_map, dedent]
  rfl

theorem itemDescription_cutBlock (first : List Char) (rest : List (List Char)) :
    itemDescription first (cutBlock rest) = itemDescription first rest := by
  rw [itemDescription, dedent_cutBlock, itemDescription]

/-! Cleaning -/

/-- Takes the margin off a text, with the first line and the other ones found by position. -/
def cleanLines? (text : List Char) : Option (List (List Char)) :=
  let block := lines (expandTabs text)
  if block.isEmpty then some []
  else do
    let first ← block[0]?
    let more ← slice? block 1 block.length
    let more ← cutBlock? more
    return dropBlankEnds (trimStart first :: more.map trimEnd)

/-- Cleaning by positions cannot fail: its block is not empty where it is looked into. -/
theorem cleanLines?_eq (text : List Char) : cleanLines? text = some (cleanLines text) := by
  rw [cleanLines?, cleanLines]
  cases lines (expandTabs text) with
  | nil => rfl
  | cons first more =>
      have hMore : slice? (first :: more) 1 (first :: more).length = some more := by
        have hSlice := slice?_append [first] more []
        rwa [List.append_nil, List.length_singleton, Nat.add_comm] at hSlice
      have hLines : (cutBlock more).map trimEnd =
          more.map fun line => trimEnd (dropMargin (marginOf more) line) := List.map_map
      simp only [hMore, cutBlock?_eq, List.isEmpty_cons, List.getElem?_cons_zero,
        Bool.false_eq_true, if_false, Option.bind_eq_bind, Option.bind_some, hLines]
      rfl

end ToolSchema.Documentation
