import Mathlib.Data.List.TakeWhile
import ToolSchema.Documentation.Reading
import ToolSchema.Proofs.Text.Lines

/-! How each layout takes a text apart. Lines that carry no mark of a layout add nothing
to its reading, so the blocks of a text are found again from the lines that start them. -/
namespace ToolSchema.Documentation

open Text

/-- Blocks written one below the other, each as its first line and the lines that continue it. -/
def layOut (blocks : List (List Char × List (List Char))) : List (List Char) :=
  blocks.flatMap fun (line, rest) => line :: rest

section

variable {line title under : List Char} {front rest body text : List (List Char)}
  {blocks : List (List Char × List (List Char))}

theorem layOut_cons (block : List Char × List (List Char)) :
    layOut (block :: blocks) = block.1 :: (block.2 ++ layOut blocks) :=
  List.flatMap_cons

/-- The lines that continue a block end where the next block starts. -/
theorem takeWhile_layOut {p : List Char → Bool} (hRest : ∀ line ∈ rest, p line = true)
    (hBlocks : ∀ block ∈ blocks, p block.1 = false) :
    (rest ++ layOut blocks).takeWhile p = rest := by
  cases blocks with
  | nil =>
      change (rest ++ []).takeWhile p = rest
      rw [List.append_nil]
      exact List.takeWhile_eq_self_iff.mpr hRest
  | cons block blocks =>
      rw [layOut_cons]
      exact (span_append_cons hRest (hBlocks block List.mem_cons_self)).1

/-! Items of a section -/

/-- A line that continues an item of the section. -/
def continues (width : Nat) (line : List Char) : Bool :=
  allBlank line || decide (width < indentOf line)

/-- Lines that continue an item do not start one. -/
theorem items_append {width : Nat} (hRest : ∀ line ∈ rest, continues width line = true)
    (text : List (List Char)) : items width (rest ++ text) = items width text := by
  induction rest with
  | nil => rfl
  | cons line rest ih =>
      rw [List.forall_mem_cons] at hRest
      have hSkip : allBlank line = true ∨ indentOf line ≠ width := by
        rcases Bool.or_eq_true_iff.mp hRest.1 with hBlank | hDeep
        · exact .inl hBlank
        · exact .inr (Nat.ne_of_gt (of_decide_eq_true hDeep))
      rw [List.cons_append, items, if_pos hSkip, ih hRest.2]

/-- The items that were written down are the ones that are found, each with its own lines. -/
theorem items_layOut {width : Nat}
    (hFirst : ∀ block ∈ blocks, allBlank block.1 = false ∧ indentOf block.1 = width)
    (hRest : ∀ block ∈ blocks, ∀ line ∈ block.2, continues width line = true) :
    items width (layOut blocks) = blocks := by
  induction blocks with
  | nil => rfl
  | cons block blocks ih =>
      rw [List.forall_mem_cons] at hFirst hRest
      obtain ⟨⟨hBlank, hWidth⟩, hMore⟩ := hFirst
      have hStart : ¬ (allBlank block.1 = true ∨ indentOf block.1 ≠ width) := by
        rw [hBlank, hWidth]
        rintro (h | h)
        · cases h
        · exact h rfl
      have hNext : ∀ next ∈ blocks, continues width next.1 = false := by
        intro next hm
        rw [continues, (hMore next hm).1, (hMore next hm).2, Bool.false_or]
        exact decide_eq_false (Nat.lt_irrefl width)
      rw [layOut_cons, items, if_neg hStart, items_append hRest.1, ih hMore hRest.2]
      exact congrArg (fun rest => (block.1, rest) :: blocks) (takeWhile_layOut hRest.1 hNext)

/-- The items of a section in which every item starts at the same indentation, and goes on with
lines that are indented deeper. -/
theorem sectionItems_layOut {width : Nat} (hBlocks : blocks ≠ [])
    (hFirst : ∀ block ∈ blocks, allBlank block.1 = false ∧ indentOf block.1 = width)
    (hRest : ∀ block ∈ blocks, ∀ line ∈ block.2, continues width line = true) :
    sectionItems (layOut blocks) = blocks := by
  have hItems := items_layOut hFirst hRest
  cases blocks with
  | nil => exact absurd rfl hBlocks
  | cons block blocks =>
      obtain ⟨hBlank, hWidth⟩ := hFirst block List.mem_cons_self
      have hFind : (layOut (block :: blocks)).find? (fun line => !allBlank line) =
          some block.1 := by
        rw [layOut_cons]
        exact List.find?_cons_of_pos (by rw [hBlank]; rfl)
      rw [sectionItems, hFind]
      change items (indentOf block.1) _ = _
      rw [hWidth, hItems]

/-! Marked lines -/

/-- Unmarked lines before the first item belong to none. -/
theorem fieldLines_append {marker : Char} (hRest : ∀ line ∈ rest, isMarked marker line = false)
    (text : List (List Char)) : fieldLines marker (rest ++ text) = fieldLines marker text := by
  induction rest with
  | nil => rfl
  | cons line rest ih =>
      rw [List.forall_mem_cons] at hRest
      rw [List.cons_append, fieldLines, if_neg (by rw [hRest.1]; exact nofun), ih hRest.2]

/-- The marked lines start the blocks that were written down. -/
theorem fieldLines_layOut {marker : Char}
    (hFirst : ∀ block ∈ blocks, isMarked marker block.1 = true)
    (hRest : ∀ block ∈ blocks, ∀ line ∈ block.2, isMarked marker line = false) :
    fieldLines marker (layOut blocks) = blocks := by
  induction blocks with
  | nil => rfl
  | cons block blocks ih =>
      rw [List.forall_mem_cons] at hFirst hRest
      have hTake := takeWhile_layOut (p := fun line => !isMarked marker line)
        (fun line hm => by rw [hRest.1 line hm]; rfl) (fun next hm => by rw [hFirst.2 next hm]; rfl)
      rw [layOut_cons, fieldLines, if_pos hFirst.1, fieldLines_append hRest.1,
        ih hFirst.2 hRest.2, hTake]

/-- What stands above the first marked line is description, and every marked line starts a field. -/
theorem readFields_layOut {style : FieldStyle} {fields : List (Field × List (List Char))}
    (hFront : ∀ line ∈ front, isMarked style.marker line = false)
    (hFirst : ∀ block ∈ blocks, isMarked style.marker block.1 = true)
    (hRest : ∀ block ∈ blocks, ∀ line ∈ block.2, isMarked style.marker line = false)
    (hFields : blocks.filterMap (fun block => (field? style block.1).map (·, block.2)) = fields) :
    readFields style (front ++ layOut blocks) =
      ⟨style.layout, (describe front).1, (describe front).2,
        fields.foldl (fun entries item => addField entries item.1 item.2) [],
        fields.length⟩ := by
  have hTake := takeWhile_layOut (p := fun line => !isMarked style.marker line)
    (fun line hm => by rw [hFront line hm]; rfl) (fun next hm => by rw [hFirst next hm]; rfl)
  rw [readFields, fieldLines_append hFront, fieldLines_layOut hFirst hRest, hTake, hFields]

/-- Where no line is marked, nothing is recognised. -/
theorem readFields_of_unmarked {style : FieldStyle}
    (h : ∀ line ∈ text, isMarked style.marker line = false) :
    (readFields style text).recognised = 0 := by
  have hLines : fieldLines style.marker text = [] := by
    have hAppend := fieldLines_append h []
    rwa [List.append_nil] at hAppend
  rw [readFields, hLines]
  rfl

/-! Titles with a colon -/

/-- What stands before the first title is in no section. -/
theorem googleSections_append (hFront : ∀ line ∈ front, googleTitle? line = none)
    (text : List (List Char)) : googleSections (front ++ text) = googleSections text := by
  induction front with
  | nil => rfl
  | cons line front ih =>
      rw [List.forall_mem_cons] at hFront
      rw [List.cons_append, googleSections, hFront.1]
      exact ih hFront.2

theorem googleSections_of_untitled (h : ∀ line ∈ text, googleTitle? line = none) :
    googleSections text = [] := by
  have hAppend := googleSections_append h []
  rwa [List.append_nil] at hAppend

/-- One title takes all the lines below it. -/
theorem googleSections_title {name : String} (hFront : ∀ line ∈ front, googleTitle? line = none)
    (hTitle : googleTitle? title = some name) (hBody : ∀ line ∈ body, googleTitle? line = none) :
    googleSections (front ++ title :: body) = [(name, body)] := by
  have hTake : body.takeWhile (fun next => (googleTitle? next).isNone) = body :=
    List.takeWhile_eq_self_iff.mpr fun line hm => Option.isNone_iff_eq_none.mpr (hBody line hm)
  rw [googleSections_append hFront, googleSections, hTitle]
  change (name, body.takeWhile fun next => (googleTitle? next).isNone) :: googleSections body = _
  rw [hTake, googleSections_of_untitled hBody]

/-- Every title starts with a letter. -/
theorem isAlpha_of_googleTitle? {name : String} (h : googleTitle? line = some name) :
    line.head?.any Char.isAlpha = true := by
  have hLetters : ∀ title ∈ googleTitles, title.toList.head?.any Char.isAlpha = true := by decide
  have hTitle : String.ofList (line.takeWhile (· != ':')) ∈ googleTitles := by
    simp only [googleTitle?] at h
    split at h
    · split at h
      · next hMember => exact List.contains_iff_mem.mp hMember.1
      · cases h
    · cases h
  have hHead := hLetters _ hTitle
  rw [String.toList_ofList] at hHead
  cases line with
  | nil => cases hHead
  | cons c rest =>
      rw [List.takeWhile_cons] at hHead
      split at hHead
      · exact hHead
      · cases hHead

/-- A title begins with a letter and has a colon. Two ways to see that a line is none. -/
theorem googleTitle?_of_not_isAlpha {c : Char} (h : c.isAlpha = false) (rest : List Char) :
    googleTitle? (c :: rest) = none := by
  cases hTitle : googleTitle? (c :: rest) with
  | none => rfl
  | some name =>
      have hAlpha : c.isAlpha = true := isAlpha_of_googleTitle? hTitle
      rw [h] at hAlpha
      cases hAlpha

theorem googleTitle?_of_notMem (h : ':' ∉ line) : googleTitle? line = none := by
  have hColon : ∀ c ∈ line, (c != ':') = true := fun c hm => bne_iff_ne.mpr fun he => h (he ▸ hm)
  rw [googleTitle?, List.dropWhile_eq_nil_iff.mpr hColon]

/-- What stands above the only title is description, and what stands below it is its section. -/
theorem readGoogle_title {name : String} {entries : List Entry}
    (hFront : ∀ line ∈ front, googleTitle? line = none) (hTitle : googleTitle? title = some name)
    (hBody : ∀ line ∈ body, googleTitle? line = none)
    (hName : googleParamTitles.contains name = true)
    (hEntries : (sectionItems body).filterMap (fun block => googleItem? block.1 block.2) =
      entries) :
    readGoogle (front ++ title :: body) =
      ⟨.google, (describe front).1, (describe front).2, entries, 1 + entries.length⟩ := by
  have hTake : (front ++ title :: body).takeWhile (fun line => (googleTitle? line).isNone) =
      front := by
    refine (span_append_cons (fun line hm => ?_) ?_).1
    · exact Option.isNone_iff_eq_none.mpr (hFront line hm)
    · rw [hTitle]
      rfl
  simp only [readGoogle, googleSections_title hFront hTitle hBody, hTake, List.flatMap_cons,
    List.flatMap_nil, hName, if_true, List.append_nil]
  rw [← hEntries]
  rfl

/-- Without titles there are no sections and no parameters. -/
theorem readGoogle_of_untitled (h : ∀ line ∈ text, googleTitle? line = none) :
    (readGoogle text).recognised = 0 := by
  rw [readGoogle, googleSections_of_untitled h]
  rfl

/-! Underlined titles -/

/-- A character other than a dash is no part of an underline. -/
theorem isUnderline_of_mem {c : Char} (hm : c ∈ line) (hBlank : isBlank c = false)
    (hDash : c ≠ '-') : isUnderline line = false := by
  refine Bool.eq_false_iff.mpr fun h => hDash ?_
  rw [isUnderline, Bool.and_eq_true, List.all_eq_true] at h
  exact eq_of_beq (h.2 c (mem_trim hm hBlank))

theorem isTitle_of_not_underline (h : isUnderline under = false) (line : List Char) :
    isTitle line under = false := by
  rw [isTitle, h, Bool.and_false]

/-- An underline needs a line above it, so it does not matter what the first line is. -/
theorem numpySections_of_plain (h : ∀ line ∈ text.tail, isUnderline line = false) :
    numpySections text = some [] := by
  induction text with
  | nil => rfl
  | cons line more ih =>
      cases more with
      | nil => rfl
      | cons under rest =>
          rw [List.tail_cons, List.forall_mem_cons] at h
          rw [numpySections, isTitle_of_not_underline h.1, if_neg Bool.false_ne_true]
          exact ih h.2

/-- Without an underline there is no title, so all of the text comes before it. -/
theorem beforeTitle_of_plain (h : ∀ line ∈ text.tail, isUnderline line = false) :
    beforeTitle text = text := by
  induction text with
  | nil => rfl
  | cons line more ih =>
      cases more with
      | nil => rfl
      | cons under rest =>
          rw [List.tail_cons, List.forall_mem_cons] at h
          rw [beforeTitle, isTitle_of_not_underline h.1, if_neg Bool.false_ne_true]
          exact congrArg (line :: ·) (ih h.2)

/-- One underlined title takes all the lines below its underline. -/
theorem numpySections_title (hFront : ∀ line ∈ front, isUnderline line = false)
    (hPlain : isUnderline title = false) (hTitle : isTitle title under = true)
    (hBody : ∀ line ∈ body, isUnderline line = false) :
    numpySections (front ++ title :: under :: body) = some [(.ofList (trim title), body)] := by
  induction front with
  | nil =>
      have hHead : ¬ body.head?.any isUnderline = true := by
        cases body with
        | nil => exact nofun
        | cons line body =>
            rw [List.head?_cons, Option.any_some, hBody line List.mem_cons_self]
            exact nofun
      have hMore : numpySections (under :: body) = some [] := numpySections_of_plain hBody
      rw [List.nil_append, numpySections, if_pos hTitle, if_neg hHead, hMore,
        beforeTitle_of_plain fun line hm => hBody line (List.mem_of_mem_tail hm)]
      rfl
  | cons line front ih =>
      rw [List.forall_mem_cons] at hFront
      specialize ih hFront.2
      cases front with
      | nil =>
          change numpySections (line :: title :: under :: body) = _
          rw [numpySections, isTitle_of_not_underline hPlain, if_neg Bool.false_ne_true]
          exact ih
      | cons next front =>
          change numpySections (line :: next :: (front ++ title :: under :: body)) = _
          rw [numpySections, isTitle_of_not_underline (hFront.2 next List.mem_cons_self),
            if_neg Bool.false_ne_true]
          exact ih

/-- The text before a title ends above the title line. -/
theorem beforeTitle_title (hFront : ∀ line ∈ front, isUnderline line = false)
    (hPlain : isUnderline title = false) (hTitle : isTitle title under = true) :
    beforeTitle (front ++ title :: under :: body) = front := by
  induction front with
  | nil => rw [List.nil_append, beforeTitle, if_pos hTitle]
  | cons line front ih =>
      rw [List.forall_mem_cons] at hFront
      specialize ih hFront.2
      cases front with
      | nil =>
          change beforeTitle (line :: title :: under :: body) = _
          rw [beforeTitle, isTitle_of_not_underline hPlain, if_neg Bool.false_ne_true]
          exact congrArg (line :: ·) ih
      | cons next front =>
          change beforeTitle (line :: next :: (front ++ title :: under :: body)) = _
          rw [beforeTitle, isTitle_of_not_underline (hFront.2 next List.mem_cons_self),
            if_neg Bool.false_ne_true]
          exact congrArg (line :: ·) ih

/-- What stands above the only underlined title is description, and what stands below the underline
is its section. -/
theorem readNumpy_title {entries : List Entry} (hFront : ∀ line ∈ front, isUnderline line = false)
    (hPlain : isUnderline title = false) (hTitle : isTitle title under = true)
    (hBody : ∀ line ∈ body, isUnderline line = false)
    (hName : numpyParamTitles.contains (.ofList (trim title)) = true)
    (hEntries : (sectionItems body).flatMap (fun block => numpyItem block.1 block.2) = entries) :
    readNumpy (front ++ title :: under :: body) =
      some ⟨.numpy, (describe front).1, (describe front).2, entries, 1 + entries.length⟩ := by
  rw [readNumpy, numpySections_title hFront hPlain hTitle hBody,
    beforeTitle_title hFront hPlain hTitle]
  simp only [Option.map_some, List.flatMap_cons, List.flatMap_nil, hName, if_true, List.append_nil]
  rw [← hEntries]
  rfl

/-- A text without underlines can be read, with nothing recognised. -/
theorem readNumpy_of_plain (h : ∀ line ∈ text, isUnderline line = false) :
    ∃ doc, readNumpy text = some doc ∧ doc.recognised = 0 := by
  rw [readNumpy, numpySections_of_plain fun line hm => h line (List.mem_of_mem_tail hm)]
  exact ⟨_, rfl, rfl⟩

end

/-! The layout that fits -/

/-- What a layout looks for at the start of a line. -/
def bears (line : List Char) : Layout → Bool
  | .google => (googleTitle? line).isSome
  | .rest => isMarked FieldStyle.rest.marker line
  | .epydoc => isMarked FieldStyle.epydoc.marker line
  | .numpy => isUnderline line

theorem bears_google_of_not_isAlpha {c : Char} (h : c.isAlpha = false) (rest : List Char) :
    bears (c :: rest) .google = false :=
  congrArg Option.isSome (googleTitle?_of_not_isAlpha h rest)

/-- A layout that is not found in any line recognises nothing, and does read the text. -/
theorem readLines_of_plain {layout : Layout} {text : List (List Char)}
    (h : ∀ line ∈ text, bears line layout = false) :
    ∃ doc, readLines layout text = some doc ∧ doc.recognised = 0 := by
  cases layout with
  | google =>
      refine ⟨_, rfl, readGoogle_of_untitled fun line hm => ?_⟩
      exact Option.isNone_iff_eq_none.mp (Option.isSome_eq_false_iff.mp (h line hm))
  | rest => exact ⟨_, rfl, readFields_of_unmarked h⟩
  | epydoc => exact ⟨_, rfl, readFields_of_unmarked h⟩
  | numpy => exact readNumpy_of_plain h

/-- The reading that is chosen is one of those that are compared. -/
theorem mem_of_mostRecognised {docs : List Documentation} {best : Documentation}
    (h : mostRecognised docs = some best) : best ∈ docs := by
  induction docs with
  | nil => cases h
  | cons doc more ih =>
      rw [mostRecognised] at h
      cases hMore : mostRecognised more with
      | none =>
          rw [hMore] at h
          cases h
          exact List.mem_cons_self
      | some other =>
          rw [hMore] at h
          have hEither := Option.some.inj h
          split at hEither
          · exact List.mem_cons_of_mem _ (ih (hMore.trans (congrArg some hEither)))
          · exact hEither ▸ List.mem_cons_self

/-- A reading is taken if it recognises more than those before it and no less than those after. -/
theorem mostRecognised_append_cons {before after : List Documentation} {doc : Documentation}
    (hBefore : ∀ other ∈ before, other.recognised < doc.recognised)
    (hAfter : ∀ other ∈ after, other.recognised ≤ doc.recognised) :
    mostRecognised (before ++ doc :: after) = some doc := by
  induction before with
  | nil =>
      rw [List.nil_append, mostRecognised]
      cases hMore : mostRecognised after with
      | none => rfl
      | some best =>
          exact congrArg some (if_neg (Nat.not_lt.mpr (hAfter best (mem_of_mostRecognised hMore))))
  | cons other before ih =>
      rw [List.forall_mem_cons] at hBefore
      rw [List.cons_append, mostRecognised, ih hBefore.2]
      exact congrArg some (if_pos hBefore.1)

theorem Layout.mem_all (layout : Layout) : layout ∈ all := by
  cases layout <;> decide

/-- If a text can be read in every layout, the readings are compared. -/
theorem read_eq_mostRecognised {text : String} {readings : Layout → Documentation}
    (h : ∀ layout, readAs layout text = some (readings layout)) :
    read text = mostRecognised (Layout.all.map readings) := by
  have hAll : Layout.all.mapM (fun layout => readAs layout text) =
      some (Layout.all.map readings) := by
    rw [funext h]
    exact List.mapM_pure
  rw [read, hAll]
  rfl

/-- A text is read in the only layout that recognises anything in it. -/
theorem read_of_only {text : String} {layout : Layout} {readings : Layout → Documentation}
    (h : ∀ layout, readAs layout text = some (readings layout))
    (hSome : 0 < (readings layout).recognised)
    (hOthers : ∀ other, other ≠ layout → (readings other).recognised = 0) :
    read text = some (readings layout) := by
  obtain ⟨before, after, hSplit, hFirst⟩ := List.eq_append_cons_of_mem layout.mem_all
  rw [read_eq_mostRecognised h, hSplit, List.map_append, List.map_cons]
  refine mostRecognised_append_cons (fun doc hm => ?_) fun doc hm => ?_
  · obtain ⟨other, hOther, rfl⟩ := List.mem_map.mp hm
    rwa [hOthers other fun he => hFirst (he ▸ hOther)]
  · obtain ⟨other, -, rfl⟩ := List.mem_map.mp hm
    by_cases he : other = layout
    · rw [he]
    · rw [hOthers other he]
      exact Nat.zero_le _

end ToolSchema.Documentation
