import ToolSchema.Proofs.Documentation.Items

/-! The same content written down in any layout is read back as the same content. -/
namespace ToolSchema.Documentation

open Text

/-- What documentation says: a short description, the lines of a long one if there is any, and
parameters with hints. -/
structure Content where
  short : List Char
  long : List (List Char)
  params : List Param

/-- The lines above the items in each layout. -/
def heading (dashes : Nat) : Layout → List (List Char)
  | .google => ["Args:".toList]
  | .rest => []
  | .epydoc => []
  | .numpy => ["Parameters".toList, List.replicate dashes '-']

/-- The count of sections in which each layout lists parameters. -/
def sectionCount : Layout → Nat
  | .google => 1
  | .rest => 0
  | .epydoc => 0
  | .numpy => 1

/-! The lines above the items -/

theorem isBlank_of_mem_dashes {dashes : Nat} {c : Char} (hm : c ∈ List.replicate dashes '-') :
    isBlank c = false := by
  rw [(List.mem_replicate.mp hm).2]
  decide

/-- An underline is dashes from end to end. -/
theorem opens_closes_dashes {dashes : Nat} (hDashes : 0 < dashes) :
    Opens (List.replicate dashes '-') ∧ Closes (List.replicate dashes '-') := by
  have hText : List.replicate dashes '-' ≠ [] := by
    rw [ne_eq, List.replicate_eq_nil_iff]
    exact Nat.ne_of_gt hDashes
  exact ⟨opens_of_forall hText fun _ => isBlank_of_mem_dashes,
    closes_of_forall hText fun _ => isBlank_of_mem_dashes⟩

/-- Three dashes or more underline a title. -/
theorem isUnderline_dashes {dashes : Nat} (hDashes : 3 ≤ dashes) :
    isUnderline (List.replicate dashes '-') = true := by
  obtain ⟨hOpens, hCloses⟩ := opens_closes_dashes (Nat.zero_lt_of_lt hDashes)
  rw [isUnderline, trim_eq_self hOpens hCloses, List.length_replicate, decide_eq_true hDashes,
    Bool.true_and]
  exact List.all_eq_true.mpr fun c hm => beq_iff_eq.mpr (List.mem_replicate.mp hm).2

/-- The heading of one layout is a mark for no other one. -/
theorem bears_heading {dashes : Nat} (hDashes : 0 < dashes) {layout other : Layout}
    (hOther : other ≠ layout) {line : List Char} (hm : line ∈ heading dashes layout) :
    bears line other = false := by
  cases layout with
  | google =>
      rw [List.mem_singleton.mp hm]
      cases other with
      | google => exact absurd rfl hOther
      | rest => rfl
      | epydoc => rfl
      | numpy => decide
  | rest => cases hm
  | epydoc => cases hm
  | numpy =>
      obtain ⟨count, rfl⟩ := Nat.exists_eq_add_one.mpr hDashes
      rcases List.mem_cons.mp hm with rfl | hUnder
      · cases other <;> decide
      · rw [List.mem_singleton.mp hUnder]
        cases other with
        | google => exact bears_google_of_not_isAlpha (by decide) _
        | rest => rfl
        | epydoc => rfl
        | numpy => exact absurd rfl hOther

theorem written_heading {dashes : Nat} (hDashes : 0 < dashes) {layout : Layout}
    {line : List Char} (hm : line ∈ heading dashes layout) : Written line := by
  cases layout with
  | google =>
      rw [List.mem_singleton.mp hm]
      exact ⟨by decide, by decide, by decide⟩
  | rest => cases hm
  | epydoc => cases hm
  | numpy =>
      rcases List.mem_cons.mp hm with rfl | hUnder
      · exact ⟨by decide, by decide, by decide⟩
      · rw [List.mem_singleton.mp hUnder]
        refine ⟨fun hm => ?_, fun hm => ?_, (opens_closes_dashes hDashes).2.trimEnd_eq⟩
        · exact absurd (List.mem_replicate.mp hm).2 (by decide)
        · exact absurd (List.mem_replicate.mp hm).2 (by decide)

namespace Content

/-- The descriptions, with a blank line between them. -/
def description (content : Content) : List (List Char) :=
  content.short :: if content.long = [] then [] else [] :: content.long

/-- The lines above the section of the parameters. -/
def opening (content : Content) : List (List Char) := content.description ++ [[]]

def items (content : Content) (layout : Layout) : List (List Char) :=
  layOut (content.params.map (Param.block layout))

def lines (content : Content) (dashes : Nat) (layout : Layout) : List (List Char) :=
  content.opening ++ (heading dashes layout ++ content.items layout)

/-- The content as documentation in the layout. An underline has so many dashes. -/
def text (content : Content) (dashes : Nat) (layout : Layout) : String :=
  .ofList (unlines (content.lines dashes layout))

/-- What reading the documentation gives. -/
def reading (content : Content) (layout : Layout) : Documentation :=
  ⟨layout, some (.ofList content.short), nonempty? (unlines content.long),
    content.params.map Param.entry, sectionCount layout + content.params.length⟩

/-- The short description holds something, and the long one does if it is present. Neither has
white space at its ends or a line that bears the mark of a layout. There are parameters, with
different names. -/
structure WellFormed (content : Content) : Prop where
  short : trim content.short = content.short ∧ content.short ≠ []
  long : trim (unlines content.long) = unlines content.long
  present : content.long ≠ [] → unlines content.long ≠ []
  written : ∀ line ∈ content.short :: content.long, Written line
  plain : ∀ line ∈ content.short :: content.long, ∀ layout, bears line layout = false
  nonempty : content.params ≠ []
  names : (content.params.map (·.name)).Nodup
  param : ∀ param ∈ content.params, param.WellFormed

instance (content : Content) : Decidable content.WellFormed :=
  decidable_of_iff ((trim content.short = content.short ∧ content.short ≠ []) ∧
      (trim (unlines content.long) = unlines content.long ∧
        (content.long ≠ [] → unlines content.long ≠ [])) ∧
      (∀ line ∈ content.short :: content.long, Written line) ∧
      (∀ line ∈ content.short :: content.long, ∀ layout ∈ Layout.all, bears line layout = false) ∧
      content.params ≠ [] ∧ (content.params.map (·.name)).Nodup ∧
      ∀ param ∈ content.params, param.WellFormed)
    ⟨fun ⟨hShort, hLong, hWritten, hPlain, hNonempty, hNames, hParam⟩ =>
      ⟨hShort, hLong.1, hLong.2, hWritten,
        fun line hm layout => hPlain line hm layout layout.mem_all, hNonempty, hNames, hParam⟩,
      fun h => ⟨h.short, ⟨h.long, h.present⟩, h.written, fun line hm layout _ =>
        h.plain line hm layout, h.nonempty, h.names, h.param⟩⟩

variable {content : Content}

/-! The descriptions -/

theorem opens_closes_short (h : content.WellFormed) : Opens content.short ∧ Closes content.short :=
  opens_closes_of_trim_eq h.short.1 h.short.2

/-- The descriptions as one text, with a blank line between them if there are two. -/
theorem unlines_description (content : Content) : unlines content.description =
    content.short ++ if content.long = [] then [] else '\n' :: '\n' :: unlines content.long := by
  rw [description]
  split
  · exact (List.append_nil content.short).symm
  · next hLong => rw [unlines_cons (List.cons_ne_nil _ _), unlines_cons hLong, List.nil_append]

/-- The blank line above the items is trimmed off. -/
theorem trim_opening (h : content.WellFormed) :
    trim (unlines content.opening) = unlines content.description := by
  obtain ⟨hOpens, hCloses⟩ := opens_closes_short h
  have hText : Opens (unlines content.description) := hOpens.unlines _
  have hEnd : Closes (unlines content.description) := by
    rw [unlines_description]
    split
    · rwa [List.append_nil]
    · next hLong =>
      exact (((opens_closes_of_trim_eq h.long (h.present hLong)).2).behind ['\n', '\n']).behind _
  have hBlank : ∀ c ∈ ['\n'], isBlank c = true := List.all_eq_true.mp (by decide)
  have hDescription : content.description ≠ [] := List.cons_ne_nil _ _
  rw [opening, unlines_concat_nil hDescription, trim, (hText.append _).trimStart_eq,
    trimEnd_append_of_blank hBlank hEnd]

/-- The two descriptions are told apart at the blank line between them. -/
theorem describe_opening (h : content.WellFormed) : describe content.opening =
    (some (.ofList content.short), nonempty? (unlines content.long)) := by
  have hFeeds : ∀ c ∈ content.short, (c != '\n') = true := fun c hm =>
    bne_iff_ne.mpr fun he => (h.written _ List.mem_cons_self).feeds (he ▸ hm)
  rw [describe, trim_opening h, unlines_description, ← nonempty?_of_ne_nil h.short.2]
  by_cases hLong : content.long = []
  · rw [if_pos hLong, hLong, List.append_nil]
    simp only [List.takeWhile_eq_self_iff.mpr hFeeds, List.dropWhile_eq_nil_iff.mpr hFeeds,
      h.short.1]
    rfl
  · obtain ⟨hOpens, hCloses⟩ := opens_closes_of_trim_eq h.long (h.present hLong)
    obtain ⟨hTake, hDrop⟩ :
        (content.short ++ '\n' :: '\n' :: unlines content.long).takeWhile (· != '\n') =
          content.short ∧
        (content.short ++ '\n' :: '\n' :: unlines content.long).dropWhile (· != '\n') =
          '\n' :: '\n' :: unlines content.long :=
      span_append_cons hFeeds (by decide)
    have hBlanks : ∀ c ∈ ['\n', '\n'], isBlank c = true := List.all_eq_true.mp (by decide)
    have hTrim : trim ('\n' :: '\n' :: unlines content.long) = unlines content.long :=
      trim_append_of_blank hBlanks hOpens hCloses
    rw [if_neg hLong]
    simp only [hTake, hDrop, h.short.1, hTrim]

/-- The lines above the items come from the descriptions or are empty. -/
theorem mem_opening {line : List Char} (hm : line ∈ content.opening) :
    line = [] ∨ line ∈ content.short :: content.long := by
  rcases List.mem_append.mp hm with hDescription | hOne
  · rcases List.mem_cons.mp hDescription with rfl | hBelow
    · exact .inr List.mem_cons_self
    · split at hBelow
      · cases hBelow
      · exact (List.mem_cons.mp hBelow).imp_right (List.mem_cons_of_mem _)
  · exact .inl (List.mem_singleton.mp hOne)

/-- No line of the descriptions is a mark of any layout. -/
theorem bears_opening (h : content.WellFormed) {line : List Char} (hm : line ∈ content.opening)
    (layout : Layout) : bears line layout = false := by
  rcases mem_opening hm with rfl | hLine
  · cases layout <;> rfl
  · exact h.plain line hLine layout

/-! The items -/

/-- What holds of every well-formed parameter holds of all blocks that are written. So it does of
their lines, below. -/
theorem forall_blocks (h : content.WellFormed) {layout : Layout}
    {P : List Char × List (List Char) → Prop}
    (hParam : ∀ param : Param, param.WellFormed → P (param.block layout)) :
    ∀ block ∈ content.params.map (Param.block layout), P block := by
  intro block hm
  obtain ⟨param, hMember, rfl⟩ := List.mem_map.mp hm
  exact hParam param (h.param param hMember)

/-- If a layout reads each item, then it reads the list of them. -/
theorem filterMap_blocks {α : Type} (h : content.WellFormed) {layout : Layout}
    {readItem : List Char × List (List Char) → Option α} {value : Param → α}
    (hItem : ∀ param : Param, param.WellFormed →
      readItem (param.block layout) = some (value param)) :
    (content.params.map (Param.block layout)).filterMap readItem = content.params.map value := by
  rw [List.filterMap_map, ← List.filterMap_eq_map]
  exact List.filterMap_congr fun param hm => hItem param (h.param param hm)

/-- The items of a section are found again if they share an indentation and go on deeper. -/
theorem sectionItems_items (h : content.WellFormed) {layout : Layout} {width : Nat}
    (hHead : ∀ param : Param, param.WellFormed →
      allBlank (param.head layout) = false ∧ indentOf (param.head layout) = width)
    (hTail : ∀ param : Param, param.WellFormed →
      ∀ line ∈ param.tail layout, continues width line = true) :
    sectionItems (content.items layout) = content.params.map (Param.block layout) := by
  have hBlocks : content.params.map (Param.block layout) ≠ [] := by
    rw [ne_eq, List.map_eq_nil_iff]
    exact h.nonempty
  exact sectionItems_layOut hBlocks (forall_blocks h hHead) (forall_blocks h hTail)

theorem bears_tails (h : content.WellFormed) (layout other : Layout) :
    ∀ block ∈ content.params.map (Param.block layout), ∀ line ∈ block.2, bears line other = false :=
  forall_blocks h fun _ hParam _ hLine => Param.bears_tail hParam hLine other

theorem forall_items (h : content.WellFormed) {layout : Layout} {P : List Char → Prop}
    (hHead : ∀ param : Param, param.WellFormed → P (param.head layout))
    (hTail : ∀ param : Param, param.WellFormed → ∀ line ∈ param.tail layout, P line) :
    ∀ line ∈ content.items layout, P line := by
  intro line hm
  obtain ⟨block, hBlock, hLine⟩ := List.mem_flatMap.mp hm
  obtain ⟨param, hParam, rfl⟩ := List.mem_map.mp hBlock
  rcases List.mem_cons.mp hLine with rfl | hRest
  · exact hHead param (h.param param hParam)
  · exact hTail param (h.param param hParam) line hRest

/-- Items of one layout bear no mark of another one if their first lines do not. -/
theorem bears_items (h : content.WellFormed) {layout other : Layout}
    (hHeads : ∀ param : Param, param.WellFormed → bears (param.head layout) other = false) :
    ∀ line ∈ content.items layout, bears line other = false :=
  forall_items h hHeads fun _ hParam _ hLine => Param.bears_tail hParam hLine other

/-! Reading in the layout of the text -/

theorem not_googleTitle {line : List Char} (h : bears line .google = false) :
    googleTitle? line = none :=
  Option.isNone_iff_eq_none.mp (Option.isSome_eq_false_iff.mp h)

/-- Reading in the layout of the text gives back the content, one lemma for each layout. -/
theorem readGoogle_lines (h : content.WellFormed) (dashes : Nat) :
    readGoogle (content.lines dashes .google) = content.reading .google := by
  have hBody : ∀ line ∈ content.items .google, googleTitle? line = none := fun line hm =>
    not_googleTitle (bears_items h (fun _ hParam => Param.bears_head_google hParam .google) line hm)
  have hSection : sectionItems (content.items .google) = content.params.map (Param.block .google) :=
    sectionItems_items h (fun _ => Param.google_start) fun _ hParam _ =>
      Param.google_continues hParam
  have hEntries : (sectionItems (content.items .google)).filterMap
      (fun block => googleItem? block.1 block.2) = content.params.map Param.entry := by
    rw [hSection]
    exact filterMap_blocks h fun _ => Param.googleItem?_head
  have hTitle : googleTitle? "Args:".toList = some "Args" := by decide
  have hOpening : ∀ line ∈ content.opening, googleTitle? line = none := fun line hm =>
    not_googleTitle (bears_opening h hm .google)
  have hRead := readGoogle_title hOpening hTitle hBody (by decide) hEntries
  rw [describe_opening h, List.length_map] at hRead
  exact hRead

/-- The layout writes its items in the form that the style reads. -/
structure Agrees (style : FieldStyle) : Prop where
  marker (line : List Char) : bears line style.layout = isMarked style.marker line
  head (param : Param) :
    param.head style.layout = style.marker :: ("param".toList ++ ' ' :: param.label)
  tail (param : Param) : param.tail style.layout = param.more.map (indent 4)
  tag : style.tags.contains "param" = true
  sections : sectionCount style.layout = 0

/-- The two layouts with marked items differ in the mark alone. -/
theorem agrees_rest : Agrees .rest where
  marker _ := rfl
  head _ := rfl
  tail _ := rfl
  tag := by decide
  sections := rfl

theorem agrees_epydoc : Agrees .epydoc where
  marker _ := rfl
  head _ := rfl
  tail _ := rfl
  tag := by decide
  sections := rfl

/-- Both layouts with marked items, by what the style and the layout agree in. -/
theorem readFields_lines (h : content.WellFormed) {style : FieldStyle} (hStyle : Agrees style) :
    readFields style (content.opening ++ content.items style.layout) =
      content.reading style.layout := by
  have hFields : (content.params.map (Param.block style.layout)).filterMap
      (fun block => (field? style block.1).map (·, block.2)) =
      content.params.map fun param => (param.field, param.more.map (indent 4)) := by
    refine filterMap_blocks h fun param hParam => ?_
    change (field? style (param.head style.layout)).map (·, param.tail style.layout) = _
    rw [hStyle.head, hStyle.tail, Param.field?_head hParam hStyle.tag]
    rfl
  have hOpening : ∀ line ∈ content.opening, isMarked style.marker line = false := fun line hm =>
    (hStyle.marker line).symm.trans (bears_opening h hm style.layout)
  have hFirst : ∀ block ∈ content.params.map (Param.block style.layout),
      isMarked style.marker block.1 = true := by
    refine forall_blocks h fun param _ => ?_
    change isMarked style.marker (param.head style.layout) = true
    rw [hStyle.head]
    exact beq_self_eq_true _
  have hRest : ∀ block ∈ content.params.map (Param.block style.layout), ∀ line ∈ block.2,
      isMarked style.marker line = false := fun block hm line hLine =>
    (hStyle.marker line).symm.trans (bears_tails h style.layout style.layout block hm line hLine)
  have hEntries := Param.foldl_addField h.param h.names 4 []
    fun _ _ _ hm => absurd hm List.not_mem_nil
  rw [items, readFields_layOut hOpening hFirst hRest hFields, describe_opening h, hEntries,
    List.length_map, reading, hStyle.sections, Nat.zero_add]
  rfl

/-- The underline makes the title one, and every further line is plain. -/
theorem readNumpy_lines (h : content.WellFormed) {dashes : Nat} (hDashes : 3 ≤ dashes) :
    readNumpy (content.lines dashes .numpy) = some (content.reading .numpy) := by
  have hTitle : isTitle "Parameters".toList (List.replicate dashes '-') = true := by
    rw [isTitle, isUnderline_dashes hDashes]
    rfl
  have hBody : ∀ line ∈ content.items .numpy, isUnderline line = false :=
    bears_items h fun _ hParam => Param.bears_head_numpy hParam .numpy
  have hSection : sectionItems (content.items .numpy) = content.params.map (Param.block .numpy) :=
    sectionItems_items h (fun _ => Param.numpy_start) fun _ hParam _ =>
      Param.numpy_continues hParam
  have hEntries : (sectionItems (content.items .numpy)).flatMap
      (fun block => numpyItem block.1 block.2) = content.params.map Param.entry := by
    rw [hSection, List.flatMap_map, List.map_eq_flatMap]
    exact List.flatMap_congr fun param hm => Param.numpyItem_head (h.param param hm)
  have hRead := readNumpy_title (fun line hm => bears_opening h hm .numpy) (by decide) hTitle hBody
    (by decide) hEntries
  rw [describe_opening h, List.length_map] at hRead
  exact hRead

theorem readLines_lines (h : content.WellFormed) {dashes : Nat} (hDashes : 3 ≤ dashes)
    (layout : Layout) :
    readLines layout (content.lines dashes layout) = some (content.reading layout) := by
  cases layout with
  | google => exact congrArg some (readGoogle_lines h dashes)
  | rest => exact congrArg some (readFields_lines h agrees_rest)
  | epydoc => exact congrArg some (readFields_lines h agrees_epydoc)
  | numpy => exact readNumpy_lines h hDashes

/-! Reading in another layout -/

/-- No line of a text in one layout is a mark of another one, so no other layout recognises
anything. -/
theorem bears_lines (h : content.WellFormed) {dashes : Nat} (hDashes : 0 < dashes)
    {layout other : Layout} (hOther : other ≠ layout) {line : List Char}
    (hm : line ∈ content.lines dashes layout) : bears line other = false := by
  rcases List.mem_append.mp hm with hOpening | hSection
  · exact bears_opening h hOpening other
  · rcases List.mem_append.mp hSection with hHeading | hItem
    · exact bears_heading hDashes hOther hHeading
    · exact bears_items h (fun _ hParam => Param.bears_head hParam hOther) line hItem

/-! The lines of the text -/

theorem closes_items (h : content.WellFormed) (layout : Layout) :
    ∀ line ∈ content.items layout, Closes line :=
  forall_items h (fun _ hParam => Param.closes_head hParam layout)
    fun _ hParam _ hLine => Param.closes_tail hParam hLine

/-- Every line is written without tabs and without white space at its end, so cleaning leaves it
alone. -/
theorem written_lines (h : content.WellFormed) {dashes : Nat} (hDashes : 0 < dashes)
    {layout : Layout} {line : List Char} (hm : line ∈ content.lines dashes layout) :
    Written line := by
  rcases List.mem_append.mp hm with hOpening | hSection
  · rcases mem_opening hOpening with rfl | hLine
    · exact ⟨List.not_mem_nil, List.not_mem_nil, rfl⟩
    · exact h.written line hLine
  · rcases List.mem_append.mp hSection with hHeading | hItem
    · exact written_heading hDashes hHeading
    · exact forall_items h (fun _ hParam => Param.written_head hParam layout)
        (fun _ hParam _ hLine => Param.written_tail hParam hLine) line hItem

theorem exists_head_mem_items (h : content.WellFormed) (layout : Layout) :
    ∃ param : Param, param.head layout ∈ content.items layout := by
  obtain ⟨param, params, hParams⟩ := List.exists_cons_of_ne_nil h.nonempty
  rw [items, hParams, List.map_cons, layOut_cons]
  exact ⟨param, List.mem_cons_self⟩

/-- The section of the parameters stands at the left margin. -/
theorem exists_opens (h : content.WellFormed) (dashes : Nat) (layout : Layout) :
    ∃ line ∈ heading dashes layout ++ content.items layout, Opens line := by
  obtain ⟨param, hHead⟩ := exists_head_mem_items h layout
  cases layout with
  | google => exact ⟨"Args:".toList, List.mem_cons_self, 'A', _, rfl, by decide⟩
  | rest => exact ⟨_, hHead, ':', _, rfl, by decide⟩
  | epydoc => exact ⟨_, hHead, '@', _, rfl, by decide⟩
  | numpy => exact ⟨"Parameters".toList, List.mem_cons_self, 'P', _, rfl, by decide⟩

/-- Cleaning the text gives back the lines that it was put together from. -/
theorem lines_text (h : content.WellFormed) {dashes : Nat} (hDashes : 0 < dashes)
    (layout : Layout) :
    Text.lines (clean (content.text dashes layout).toList) = content.lines dashes layout := by
  have hWritten : ∀ line ∈ content.lines dashes layout, Written line := fun _ =>
    written_lines h hDashes
  obtain ⟨param, hHead⟩ := exists_head_mem_items h layout
  have hItems := List.ne_nil_of_mem hHead
  have hLast : ∀ line ∈ (content.lines dashes layout).getLast?, line ≠ [] := by
    intro line hm
    rw [lines, ← List.append_assoc, List.getLast?_append_of_ne_nil _ hItems] at hm
    exact (closes_items h layout line (List.mem_of_mem_getLast? hm)).ne_nil
  have hMargin : ∃ line ∈ (content.lines dashes layout).tail, Opens line := by
    obtain ⟨line, hm, hOpens⟩ := exists_opens h dashes layout
    exact ⟨line, List.mem_append_right _ hm, hOpens⟩
  have hClean : cleanLines (unlines (content.lines dashes layout)) = content.lines dashes layout :=
    cleanLines_unlines hWritten (opens_closes_short h).1 hLast hMargin
  rw [text, String.toList_ofList, clean, hClean]
  exact lines_unlines (fun line hm => (hWritten line hm).feeds)
    (fun line hm => (hWritten line hm).ends) hLast

/-- Every layout is read back as what it was written from, and no layout is mistaken for another. -/
theorem read_text (h : content.WellFormed) {dashes : Nat} (hDashes : 3 ≤ dashes)
    (layout : Layout) :
    read (content.text dashes layout) = some (content.reading layout) := by
  have hOther : ∀ other, ∃ doc, readAs other (content.text dashes layout) = some doc ∧
      (other ≠ layout → doc.recognised = 0) ∧ (other = layout → doc = content.reading layout) := by
    intro other
    rw [readAs, lines_text h (Nat.zero_lt_of_lt hDashes)]
    by_cases he : other = layout
    · exact ⟨_, he ▸ readLines_lines h hDashes layout, fun hNe => absurd he hNe, fun _ => rfl⟩
    · obtain ⟨doc, hDoc, hNone⟩ := readLines_of_plain fun line hm =>
        bears_lines h (Nat.zero_lt_of_lt hDashes) he hm
      exact ⟨doc, hDoc, fun _ => hNone, fun hEq => absurd hEq he⟩
  choose readings hReadings using hOther
  have hOwn := (hReadings layout).2.2 rfl
  have hSome : 0 < (readings layout).recognised := by
    rw [hOwn]
    exact Nat.add_pos_right _ (List.length_pos_iff.mpr h.nonempty)
  have hRead := read_of_only (fun other => (hReadings other).1) hSome
    fun other => (hReadings other).2.1
  rw [hRead, hOwn]

/-- Words of the layouts in places where they mean nothing. -/
def visit : Content where
  short := "Records a visit: who came, and when.".toList
  long := ["Args: and :param day: are words here,".toList, [], "    Returns:".toList,
    "like any others.".toList]
  params := [⟨"name", "The guest (str): any name.".toList, [":param is no field.".toList]⟩,
    ⟨"day", "Args:".toList, []⟩]

example : visit.lines 10 .numpy = ["Records a visit: who came, and when.".toList, [],
    "Args: and :param day: are words here,".toList, [], "    Returns:".toList,
    "like any others.".toList, [], "Parameters".toList, "----------".toList, "name".toList,
    "    The guest (str): any name.".toList, "    :param is no field.".toList, "day".toList,
    "    Args:".toList] := by
  decide

/-- Words of each layout in the descriptions and hints do not mislead any of the four readers. -/
theorem read_visit : visit.WellFormed ∧ 3 ≤ 10 ∧
    read (visit.text 10 .google) = some (visit.reading .google) ∧
    read (visit.text 10 .rest) = some (visit.reading .rest) ∧
    read (visit.text 10 .epydoc) = some (visit.reading .epydoc) ∧
    read (visit.text 10 .numpy) = some (visit.reading .numpy) := by
  have h : visit.WellFormed := by decide
  have hDashes : 3 ≤ 10 := by decide
  exact ⟨h, hDashes, read_text h hDashes .google, read_text h hDashes .rest,
    read_text h hDashes .epydoc, read_text h hDashes .numpy⟩

end Content

end ToolSchema.Documentation
