import ToolSchema.Proofs.Documentation.Sections
import ToolSchema.Proofs.Documentation.Slices

/-! Reading by positions. A text is gone through with counters, titles are kept with the positions
of their lines, and every part of the text is a slice between two positions. The result is the
same as when a text is taken apart from its front, and a slice fails just where there is no
reading. -/
namespace ToolSchema.Documentation

open Text

/-! Blocks of lines -/

/-- The position of the first line, from a given one on, that does not continue a block. -/
def endFrom (continues : List Char → Bool) (text : List (List Char)) (position : Nat) : Nat :=
  if h : position < text.length then
    if continues text[position] then endFrom continues text (position + 1) else position
  else position
termination_by text.length - position

/-- The counter stops where the run of continuing lines ends. It moves up by one, which the
induction follows. -/
theorem endFrom_eq (continues : List Char → Bool) (text : List (List Char)) (position : Nat) :
    endFrom continues text position =
      position + ((text.drop position).takeWhile continues).length := by
  fun_induction endFrom continues text position with
  | case1 position h hContinues ih =>
      rw [ih, List.drop_eq_getElem_cons h, List.takeWhile_cons_of_pos hContinues,
        List.length_cons]
      omega
  | case2 position h hStop =>
      rw [List.drop_eq_getElem_cons h, List.takeWhile_cons_of_neg hStop]
      rfl
  | case3 position h =>
      rw [List.drop_eq_nil_of_le (Nat.le_of_not_lt h)]
      rfl

/-- The slice up to the counter. -/
theorem slice?_endFrom (continues : List Char → Bool) {text : List (List Char)} {position : Nat}
    (h : position ≤ text.length) :
    slice? text position (endFrom continues text position) =
      some ((text.drop position).takeWhile continues) := by
  have hText : text.take position ++ ((text.drop position).takeWhile continues ++
      (text.drop position).dropWhile continues) = text := by
    rw [List.takeWhile_append_dropWhile, List.take_append_drop]
  have hSlice := slice?_append (text.take position) ((text.drop position).takeWhile continues)
    ((text.drop position).dropWhile continues)
  rwa [hText, List.length_take_of_le h, ← endFrom_eq] at hSlice

theorem drop_endFrom (continues : List Char → Bool) (text : List (List Char)) (position : Nat) :
    text.drop (endFrom continues text position) =
      (text.drop position).dropWhile continues := by
  rw [endFrom_eq, ← List.drop_drop, drop_length_takeWhile]

/-- The blocks from a position on: each one is a line that starts it, and the lines up to the next
one that does not continue it, without their margin. -/
def blocksFrom? (starts continues : List Char → Bool) (text : List (List Char)) (position : Nat) :
    Option (List (List Char × List (List Char))) :=
  if h : position < text.length then
    if starts text[position] then do
      let stop := endFrom continues text (position + 1)
      let rest ← slice? text (position + 1) stop
      let rest ← cutBlock? rest
      let more ← blocksFrom? starts continues text stop
      return (text[position], rest) :: more
    else blocksFrom? starts continues text (position + 1)
  else some []
termination_by text.length - position
decreasing_by
  · have hStop := endFrom_eq continues text (position + 1)
    omega
  · omega

/-- The blocks of a text that is taken apart from its front. -/
def blocks (starts continues : List Char → Bool) :
    List (List Char) → List (List Char × List (List Char))
  | [] => []
  | line :: rest =>
    if starts line then (line, rest.takeWhile continues) :: blocks starts continues rest
    else blocks starts continues rest

section

variable {starts continues : List Char → Bool}

/-- Lines that start nothing may be passed over. -/
theorem blocks_append {front : List (List Char)} (h : ∀ line ∈ front, starts line = false)
    (text : List (List Char)) :
    blocks starts continues (front ++ text) = blocks starts continues text := by
  induction front with
  | nil => rfl
  | cons line front ih =>
      rw [List.forall_mem_cons] at h
      rw [List.cons_append, blocks, if_neg (by rw [h.1]; exact nofun), ih h.2]

/-- Going on behind a block finds the same blocks as going on behind its first line, since what
continues a block does not start one. -/
theorem blocks_dropWhile (h : ∀ line, continues line = true → starts line = false)
    (text : List (List Char)) :
    blocks starts continues (text.dropWhile continues) = blocks starts continues text := by
  have hFront : ∀ line ∈ text.takeWhile continues, starts line = false := fun line hm =>
    h line (List.all_eq_true.mp List.all_takeWhile line hm)
  rw [← blocks_append hFront, List.takeWhile_append_dropWhile]

/-- A block with the margin of its further lines taken off. -/
def withoutMargin (block : List Char × List (List Char)) : List Char × List (List Char) :=
  (block.1, cutBlock block.2)

/-- The counters stay within the text, and no block is lost between them. -/
theorem blocksFrom?_eq (h : ∀ line, continues line = true → starts line = false)
    (text : List (List Char)) (position : Nat) :
    blocksFrom? starts continues text position =
      some ((blocks starts continues (text.drop position)).map withoutMargin) := by
  induction hLeft : text.length - position using Nat.strongRecOn generalizing position with
  | ind left ih =>
      subst hLeft
      rw [blocksFrom?]
      by_cases hInside : position < text.length
      · rw [dif_pos hInside, List.drop_eq_getElem_cons hInside, blocks]
        by_cases hStart : starts text[position] = true
        · have hStop := endFrom_eq continues text (position + 1)
          have hMore := ih _ (by omega) (endFrom continues text (position + 1)) rfl
          rw [drop_endFrom, blocks_dropWhile h] at hMore
          rw [if_pos hStart, if_pos hStart]
          simp only [slice?_endFrom continues hInside, cutBlock?_eq, hMore, Option.bind_eq_bind,
            Option.bind_some]
          rfl
        · rw [if_neg hStart, if_neg hStart]
          exact ih _ (by omega) (position + 1) rfl
      · rw [dif_neg hInside, List.drop_eq_nil_of_le (Nat.le_of_not_lt hInside)]
        rfl

end

/-! Sections -/

/-- The position of the first title, or the end of the text. -/
def firstOr (stop : Nat) : List (Nat × String) → Nat
  | [] => stop
  | (position, _) :: _ => position

/-- The sections below titles at given positions. The body of a section starts so many lines below
its title, and ends at the next title. -/
def sectionsFrom? (below : Nat) (text : List (List Char)) :
    List (Nat × String) → Option (List (String × List (List Char)))
  | [] => some []
  | (position, title) :: more => do
    let body ← slice? text (position + below) (firstOr text.length more)
    let sections ← sectionsFrom? below text more
    return (title, body) :: sections

/-- The titles of a text with their positions. Whether a line is a title can depend on the lines
below it. -/
def titlesFrom (title? : List (List Char) → Option String) (position : Nat) :
    List (List Char) → List (Nat × String)
  | [] => []
  | line :: rest =>
    match title? (line :: rest) with
    | some title => (position, title) :: titlesFrom title? (position + 1) rest
    | none => titlesFrom title? (position + 1) rest

def untitled (title? : List (List Char) → Option String) : List (List Char) → List (List Char)
  | [] => []
  | line :: rest => if (title? (line :: rest)).isSome then [] else line :: untitled title? rest

section

variable (title? : List (List Char) → Option String)

/-- The lines before the first title are the front of the text. -/
theorem untitled_prefix (text : List (List Char)) : untitled title? text <+: text := by
  induction text with
  | nil => exact List.nil_prefix
  | cons line rest ih =>
      rw [untitled]
      split
      · exact List.nil_prefix
      · exact List.cons_prefix_cons.mpr ⟨rfl, ih⟩

/-- The position of the first title is the number of lines before it. -/
theorem firstOr_titlesFrom (position : Nat) (text : List (List Char)) :
    firstOr (position + text.length) (titlesFrom title? position text) =
      position + (untitled title? text).length := by
  induction text generalizing position with
  | nil => rfl
  | cons line rest ih =>
      rw [titlesFrom, untitled]
      cases title? (line :: rest) with
      | some title => rfl
      | none =>
          have hRest := ih (position + 1)
          simp only [Option.isSome_none, Bool.false_eq_true, if_false, List.length_cons]
          rw [Nat.add_comm rest.length, ← Nat.add_assoc, hRest]
          omega

/-- The slice from a position up to the next title. -/
theorem slice?_untitled (front text : List (List Char)) :
    slice? (front ++ text) front.length
        (firstOr (front ++ text).length (titlesFrom title? front.length text)) =
      some (untitled title? text) := by
  obtain ⟨back, hBack⟩ := untitled_prefix title? text
  have hSlice := slice?_append front (untitled title? text) back
  rwa [hBack, ← firstOr_titlesFrom, ← List.length_append] at hSlice

end

/-- A line that starts an item of a section. -/
def startsItem (width : Nat) (line : List Char) : Bool := !allBlank line && indentOf line == width

/-- The items of a section. Its first line that is not blank gives the indentation. -/
def sectionItems? (body : List (List Char)) : Option (List (List Char × List (List Char))) :=
  match body.find? fun line => !allBlank line with
  | some line => blocksFrom? (startsItem (indentOf line)) (continues (indentOf line)) body 0
  | none => some []

/-- Items of a section are blocks of lines by their indentation. -/
theorem items_eq_blocks (width : Nat) (text : List (List Char)) :
    items width text = blocks (startsItem width) (continues width) text := by
  induction text with
  | nil => rfl
  | cons line rest ih =>
      have hSkip : (allBlank line = true ∨ indentOf line ≠ width) ↔
          ¬ startsItem width line = true := by
        simp [startsItem, or_iff_not_imp_left]
      rw [items, blocks, ih]
      by_cases hStart : startsItem width line = true
      · rw [if_neg fun h => hSkip.mp h hStart, if_pos hStart]
        rfl
      · rw [if_pos (hSkip.mpr hStart), if_neg hStart]

theorem not_startsItem_of_continues {width : Nat} {line : List Char}
    (h : continues width line = true) : startsItem width line = false := by
  rw [startsItem]
  rcases Bool.or_eq_true_iff.mp h with hBlank | hDeep
  · rw [hBlank]
    rfl
  · have hWidth := Nat.ne_of_gt (of_decide_eq_true hDeep)
    rw [beq_eq_false_iff_ne.mpr hWidth, Bool.and_false]

/-- The items found by position are those of the section, without the margin of their further
lines. -/
theorem sectionItems?_eq (body : List (List Char)) :
    sectionItems? body = some ((sectionItems body).map withoutMargin) := by
  rw [sectionItems?, sectionItems]
  cases body.find? fun line => !allBlank line with
  | none => rfl
  | some line =>
      have hStarts : ∀ next, continues (indentOf line) next = true →
          startsItem (indentOf line) next = false := fun _ => not_startsItem_of_continues
      have hItems := blocksFrom?_eq hStarts body 0
      rwa [List.drop_zero, ← items_eq_blocks] at hItems

/-- What a layout with sections makes of a text whose titles are known. -/
def readSections? (layout : Layout) (below : Nat) (paramTitles : List String)
    (entries : List Char × List (List Char) → List Entry) (titles : List (Nat × String))
    (text : List (List Char)) : Option Documentation := do
  let front ← slice? text 0 (firstOr text.length titles)
  let sections ← sectionsFrom? below text titles
  let params ← sections.mapM fun (title, body) =>
    if paramTitles.contains title then (sectionItems? body).map (·.flatMap entries) else some []
  return ⟨layout, (describe front).1, (describe front).2, params.flatten,
    sections.length + params.flatten.length⟩

/-- Only the slices of the sections can fail. -/
theorem readSections?_eq {layout : Layout} {below : Nat} {paramTitles : List String}
    {entries : List Char × List (List Char) → List Entry}
    (hEntries : ∀ block, entries (withoutMargin block) = entries block)
    (title? : List (List Char) → Option String) (text : List (List Char)) :
    readSections? layout below paramTitles entries (titlesFrom title? 0 text) text =
      (sectionsFrom? below text (titlesFrom title? 0 text)).map fun sections =>
        let params := sections.flatMap fun (title, body) =>
          if paramTitles.contains title then (sectionItems body).flatMap entries else []
        ⟨layout, (describe (untitled title? text)).1, (describe (untitled title? text)).2, params,
          sections.length + params.length⟩ := by
  have hFront : slice? text 0 (firstOr text.length (titlesFrom title? 0 text)) =
      some (untitled title? text) := slice?_untitled title? [] text
  have hBody (title : String) (body : List (List Char)) :
      (if paramTitles.contains title then (sectionItems? body).map (·.flatMap entries)
        else some []) =
      some (if paramTitles.contains title then (sectionItems body).flatMap entries else []) := by
    split
    · rw [sectionItems?_eq, Option.map_some, List.flatMap_map]
      exact congrArg some (List.flatMap_congr fun block _ => hEntries block)
    · rfl
  rw [readSections?, hFront]
  cases sectionsFrom? below text (titlesFrom title? 0 text) with
  | none => rfl
  | some sections =>
      have hParams := mapM_eq_some_map fun part (_ : part ∈ sections) => hBody part.1 part.2
      simp only [Option.bind_eq_bind, Option.bind_some, hParams, Option.map_some,
        ← List.flatMap_def]
      rfl

/-! Marked lines -/

/-- Marked items are blocks of lines that go on up to the next mark. -/
theorem fieldLines_eq_blocks (marker : Char) (text : List (List Char)) :
    fieldLines marker text =
      blocks (isMarked marker) (fun line => !isMarked marker line) text := by
  induction text with
  | nil => rfl
  | cons line rest ih => rw [fieldLines, blocks, ih]

/-- An item takes the margin off its hint itself, so it does not matter whether that was done
before. -/
theorem addField_cutBlock (entries : List Entry) (field : Field) (rest : List (List Char)) :
    addField entries field (cutBlock rest) = addField entries field rest := by
  rw [addField, itemDescription_cutBlock, addField]

/-- Documentation with marked items, which go from the first marked line to the end. -/
def readFields? (style : FieldStyle) (text : List (List Char)) : Option Documentation := do
  let start := text.findIdx (isMarked style.marker)
  let front ← slice? text 0 start
  let marked ← blocksFrom? (isMarked style.marker) (fun line => !isMarked style.marker line)
    text start
  let fields := marked.filterMap fun (line, rest) => (field? style line).map (·, rest)
  return ⟨style.layout, (describe front).1, (describe front).2,
    fields.foldl (fun entries (field, rest) => addField entries field rest) [], fields.length⟩

/-- The first reader by positions: the front ends at the first marked line, and the blocks start
there. -/
theorem readFields?_eq (style : FieldStyle) (text : List (List Char)) :
    readFields? style text = some (readFields style text) := by
  have hTake : text.takeWhile (fun line => !isMarked style.marker line) =
      text.take (text.findIdx (isMarked style.marker)) := by
    rw [List.takeWhile_eq_take_findIdx_not]
    simp only [Bool.not_not]
  have hFront : slice? text 0 (text.findIdx (isMarked style.marker)) =
      some (text.takeWhile fun line => !isMarked style.marker line) := by
    rw [slice?, if_pos ⟨Nat.zero_le _, List.findIdx_le_length⟩, List.drop_zero, hTake]
  have hPlain : ∀ line ∈ text.take (text.findIdx (isMarked style.marker)),
      isMarked style.marker line = false := by
    intro line hm
    rw [← hTake] at hm
    exact (Bool.not_eq_true' _).mp (List.all_eq_true.mp List.all_takeWhile line hm)
  have hMarked : blocks (isMarked style.marker) (fun line => !isMarked style.marker line)
      (text.drop (text.findIdx (isMarked style.marker))) = fieldLines style.marker text := by
    rw [fieldLines_eq_blocks, ← blocks_append hPlain, List.take_append_drop]
  have hFields : ((fieldLines style.marker text).map withoutMargin).filterMap
        (fun block => (field? style block.1).map (·, block.2)) =
      ((fieldLines style.marker text).filterMap
        (fun block => (field? style block.1).map (·, block.2))).map
          fun field => (field.1, cutBlock field.2) := by
    rw [List.filterMap_map, List.map_filterMap]
    simp only [Option.map_map]
    rfl
  rw [readFields?, hFront, blocksFrom?_eq, hMarked]
  · simp only [Option.bind_eq_bind, Option.bind_some, hFields, List.foldl_map, addField_cutBlock,
      List.length_map]
    rfl
  · intro line hContinues
    exact (Bool.not_eq_true' _).mp hContinues

/-! Titles with a colon -/

/-- The titles of lines that are numbered from a position on. -/
def googleTitlesFrom (position : Nat) (text : List (List Char)) : List (Nat × String) :=
  (text.zipIdx position).filterMap fun (line, position) => (googleTitle? line).map (position, ·)

def headTitle? (text : List (List Char)) : Option String := text.head?.bind googleTitle?

theorem headTitle?_cons (line : List Char) (rest : List (List Char)) :
    headTitle? (line :: rest) = googleTitle? line := rfl

/-- Whether a line is a title with a colon does not depend on the lines below it. -/
theorem googleTitlesFrom_eq (position : Nat) (text : List (List Char)) :
    googleTitlesFrom position text = titlesFrom headTitle? position text := by
  induction text generalizing position with
  | nil => rfl
  | cons line rest ih =>
      rw [titlesFrom, ← ih, googleTitlesFrom, List.zipIdx_cons, List.filterMap_cons,
        headTitle?_cons]
      dsimp only
      cases googleTitle? line <;> rfl

/-- The lines before the first title, as they are taken off the front. -/
theorem untitled_headTitle (text : List (List Char)) :
    untitled headTitle? text = text.takeWhile fun line => (googleTitle? line).isNone := by
  induction text with
  | nil => rfl
  | cons line rest ih =>
      rw [untitled, ih, List.takeWhile_cons, headTitle?_cons]
      cases googleTitle? line <;> rfl

/-- A section starts right below its title, so its slice never goes backwards. -/
theorem sectionsFrom?_google (front text : List (List Char)) :
    sectionsFrom? 1 (front ++ text) (titlesFrom headTitle? front.length text) =
      some (googleSections text) := by
  induction text generalizing front with
  | nil => rfl
  | cons line rest ih =>
      have hRest := ih (front ++ [line])
      have hSlice := slice?_untitled headTitle? (front ++ [line]) rest
      rw [List.length_append, List.length_singleton, List.append_assoc,
        List.singleton_append] at hRest hSlice
      rw [titlesFrom, googleSections, headTitle?_cons]
      cases googleTitle? line with
      | none => exact hRest
      | some title =>
          simp only [sectionsFrom?, hSlice, hRest, untitled_headTitle, Option.bind_eq_bind,
            Option.bind_some]
          rfl

def readGoogle? (text : List (List Char)) : Option Documentation :=
  readSections? .google 1 googleParamTitles (fun (line, rest) => (googleItem? line rest).toList)
    (googleTitlesFrom 0 text) text

/-- The second reader: titles with a colon, bodies from the line below. -/
theorem readGoogle?_eq (text : List (List Char)) : readGoogle? text = some (readGoogle text) := by
  have hEntries (block : List Char × List (List Char)) :
      (googleItem? (withoutMargin block).1 (withoutMargin block).2).toList =
        (googleItem? block.1 block.2).toList := by
    simp only [withoutMargin, googleItem?, itemDescription_cutBlock]
  have hSections := sectionsFrom?_google [] text
  rw [readGoogle?, googleTitlesFrom_eq, readSections?_eq hEntries]
  rw [List.nil_append, List.length_nil] at hSections
  rw [hSections, untitled_headTitle, Option.map_some, readGoogle]
  simp only [← List.filterMap_eq_flatMap_toList]

/-! Underlined titles -/

/-- The titles with their positions. Every line but the last one is looked at with the next. -/
def numpyTitles? (text : List (List Char)) : Option (List (Nat × String)) := do
  let titles ← (List.range (text.length - 1)).mapM fun position => do
    let line ← text[position]?
    let under ← text[position + 1]?
    return if isTitle line under then some (position, String.ofList (trim line)) else none
  return titles.filterMap id

def underlined? : List (List Char) → Option String
  | line :: under :: _ => if isTitle line under then some (.ofList (trim line)) else none
  | _ => none

/-- Titles by position, with the index of each line. -/
theorem titlesFrom_eq_filterMap (title? : List (List Char) → Option String) (position : Nat)
    (text : List (List Char)) :
    titlesFrom title? position text = (List.range text.length).filterMap fun index =>
      (title? (text.drop index)).map (position + index, ·) := by
  induction text generalizing position with
  | nil => rfl
  | cons line rest ih =>
      rw [titlesFrom, ih, List.length_cons, List.range_succ_eq_map, List.filterMap_cons,
        List.filterMap_map]
      simp only [List.drop_zero, Nat.add_zero, Function.comp_def, List.drop_succ_cons,
        Nat.succ_eq_add_one, Nat.add_assoc, Nat.add_comm 1]
      cases title? (line :: rest) <;> rfl

/-- Every line but the last has a next one, so looking both up does not fail. -/
theorem numpyTitles?_eq (text : List (List Char)) :
    numpyTitles? text = some (titlesFrom underlined? 0 text) := by
  have hStep : ∀ position ∈ List.range (text.length - 1), (do
      let line ← text[position]?
      let under ← text[position + 1]?
      return if isTitle line under then some (position, String.ofList (trim line)) else none) =
        some ((underlined? (text.drop position)).map (position, ·)) := by
    intro position hm
    have hLess := List.mem_range.mp hm
    have hNext : position + 1 < text.length := by omega
    have hLine : position < text.length := by omega
    rw [List.getElem?_eq_getElem hLine, List.getElem?_eq_getElem hNext,
      List.drop_eq_getElem_cons hLine, List.drop_eq_getElem_cons hNext, underlined?]
    change some _ = some _
    split <;> rfl
  rw [numpyTitles?, mapM_eq_some_map hStep, titlesFrom_eq_filterMap]
  refine congrArg some ?_
  rw [List.filterMap_map]
  simp only [Nat.zero_add]
  rcases List.eq_nil_or_concat text with rfl | ⟨front, last, rfl⟩
  · rfl
  · have hLast : underlined? ((front ++ [last]).drop front.length) = none := by
      rw [List.drop_left]
      rfl
    rw [List.concat_eq_append, List.length_append, List.length_singleton, Nat.add_sub_cancel,
      List.range_succ, List.filterMap_append, List.filterMap_cons, hLast]
    exact (List.append_nil _).symm

/-- The lines before the first underlined title. -/
theorem untitled_underlined (text : List (List Char)) :
    untitled underlined? text = beforeTitle text := by
  induction text with
  | nil => rfl
  | cons line rest ih =>
      cases rest with
      | nil => rfl
      | cons under rest =>
          rw [untitled, ih, beforeTitle, underlined?]
          split <;> rfl

/-- Whether a line is a title is seen from the line below it. -/
theorem underlined?_cons (line : List Char) (rest : List (List Char)) :
    underlined? (line :: rest) =
      if (!allBlank line && rest.head?.any isUnderline) = true then some (.ofList (trim line))
      else none := by
  cases rest with
  | nil =>
      rw [List.head?_nil, Option.any_none, Bool.and_false]
      rfl
  | cons under rest => rfl

/-- An underline is not blank, so it could be taken for a title itself. -/
theorem allBlank_of_isUnderline {line : List Char} (h : isUnderline line = true) :
    allBlank line = false := by
  refine Bool.eq_false_iff.mpr fun hBlank => ?_
  have hStart : trimStart line = [] :=
    List.dropWhile_eq_nil_iff.mpr (List.all_eq_true.mp hBlank)
  rw [isUnderline, trim, hStart] at h
  cases h

/-- A section starts two lines below its title. That is behind the next title if the underline is
itself a title, and then there is no such slice. -/
theorem sectionsFrom?_numpy (front text : List (List Char)) :
    sectionsFrom? 2 (front ++ text) (titlesFrom underlined? front.length text) =
      numpySections text := by
  induction text generalizing front with
  | nil => rfl
  | cons line more ih =>
      cases more with
      | nil => rfl
      | cons under rest =>
          have hRest := ih (front ++ [line])
          rw [List.length_append, List.length_singleton, List.append_assoc,
            List.singleton_append] at hRest
          rw [titlesFrom, numpySections, underlined?]
          by_cases hTitle : isTitle line under = true
          · have hUnder := underlined?_cons under rest
            rw [allBlank_of_isUnderline (Bool.and_eq_true_iff.mp hTitle).2, Bool.not_false,
              Bool.true_and] at hUnder
            rw [if_pos hTitle, if_pos hTitle]
            dsimp only
            rw [sectionsFrom?, hRest]
            by_cases hTwice : rest.head?.any isUnderline = true
            · rw [if_pos hTwice] at hUnder ⊢
              rw [titlesFrom, hUnder]
              exact congrArg (· >>= _) (slice?_of_lt _ (Nat.lt_succ_self _))
            · rw [if_neg hTwice] at hUnder ⊢
              have hBody : slice? (front ++ line :: under :: rest) (front.length + 2)
                  (firstOr (front ++ line :: under :: rest).length
                    (titlesFrom underlined? (front.length + 2) rest)) =
                  some (untitled underlined? rest) := by
                have hSlice := slice?_untitled underlined? (front ++ [line, under]) rest
                rwa [List.length_append, List.append_assoc] at hSlice
              rw [titlesFrom, hUnder]
              dsimp only
              rw [hBody, untitled_underlined]
              cases numpySections (under :: rest) <;> rfl
          · rw [if_neg hTitle, if_neg hTitle]
            exact hRest

def readNumpy? (text : List (List Char)) : Option Documentation := do
  let titles ← numpyTitles? text
  readSections? .numpy 2 numpyParamTitles (fun (line, rest) => numpyItem line rest) titles text

/-- The third reader. Its bodies start two lines below their titles, so two titles in neighbouring
lines make a slice fail, and that is where the reading has no result. -/
theorem readNumpy?_eq (text : List (List Char)) : readNumpy? text = readNumpy text := by
  have hEntries (block : List Char × List (List Char)) :
      numpyItem (withoutMargin block).1 (withoutMargin block).2 = numpyItem block.1 block.2 := by
    simp only [withoutMargin, numpyItem, itemDescription_cutBlock]
  have hSections := sectionsFrom?_numpy [] text
  rw [List.nil_append, List.length_nil] at hSections
  rw [readNumpy?, numpyTitles?_eq, Option.bind_eq_bind, Option.bind_some,
    readSections?_eq hEntries, hSections, untitled_underlined, readNumpy]

/-! All layouts -/

def readLines? (layout : Layout) (text : List (List Char)) : Option Documentation :=
  match layout with
  | .google => readGoogle? text
  | .rest => readFields? .rest text
  | .epydoc => readFields? .epydoc text
  | .numpy => readNumpy? text

/-- All readers by positions are those that take a text apart from its front. -/
theorem readLines?_eq (layout : Layout) (text : List (List Char)) :
    readLines? layout text = readLines layout text := by
  cases layout with
  | google => exact readGoogle?_eq text
  | rest => exact readFields?_eq .rest text
  | epydoc => exact readFields?_eq .epydoc text
  | numpy => exact readNumpy?_eq text

/-- The text in one layout, with every line and every section found by position. -/
def readAs? (layout : Layout) (text : String) : Option Documentation := do
  let block ← cleanLines? text.toList
  readLines? layout (lines (unlines block))

theorem readAs?_eq (layout : Layout) (text : String) :
    readAs? layout text = readAs layout text := by
  rw [readAs?, cleanLines?_eq, Option.bind_eq_bind, Option.bind_some, readLines?_eq, readAs, clean]

/-- The text in whichever layout fits best. Its margin is taken off once. -/
def read? (text : String) : Option Documentation := do
  let block ← cleanLines? text.toList
  let readings ← Layout.all.mapM fun layout => readLines? layout (lines (unlines block))
  mostRecognised readings

/-- The text is cleaned once for all four layouts, which makes no difference. -/
theorem read?_eq (text : String) : read? text = read text := by
  rw [read?, cleanLines?_eq, Option.bind_eq_bind, Option.bind_some]
  simp only [readLines?_eq]
  rfl

end ToolSchema.Documentation
