import ToolSchema.Proofs.Documentation.Sections

/-! Which layout a text is read in. The layouts are compared by the entries that they recognise, and
these are counted here from the lines of the text. -/
namespace ToolSchema.Documentation

open Text (lines)

/-- The count of entries that a layout recognises. Titles of sections count beside the parameters
below them. Marked items count whatever they are about, and also where they speak of one
parameter together. -/
def Layout.entries (layout : Layout) (text : List (List Char)) (params : List Entry) : Nat :=
  match layout with
  | .google => text.countP (fun line => (googleTitle? line).isSome) + params.length
  | .rest => text.countP fun line => (field? .rest line).isSome
  | .epydoc => text.countP fun line => (field? .epydoc line).isSome
  | .numpy => (text.zip text.tail).countP (fun pair => isTitle pair.1 pair.2) + params.length

/-- There are as many sections as titles. -/
theorem length_googleSections (text : List (List Char)) :
    (googleSections text).length = text.countP fun line => (googleTitle? line).isSome := by
  induction text with
  | nil => rfl
  | cons line rest ih =>
      rw [googleSections, List.countP_cons]
      cases googleTitle? line with
      | none => exact ih
      | some title => exact congrArg (· + 1) ih

/-- An item begins with the mark of its style. -/
theorem isMarked_of_field? {style : FieldStyle} {line : List Char}
    (h : (field? style line).isSome = true) : isMarked style.marker line = true := by
  cases line with
  | nil => cases h
  | cons c body =>
      simp only [field?] at h
      split at h
      · split at h
        · next hMarked => exact hMarked.1
        · cases h
      · cases h

/-- There are as many items as lines that start one. -/
theorem length_fields (style : FieldStyle) (text : List (List Char)) :
    ((fieldLines style.marker text).filterMap fun (line, rest) =>
      (field? style line).map (·, rest)).length =
        text.countP fun line => (field? style line).isSome := by
  induction text with
  | nil => rfl
  | cons line rest ih =>
      rw [fieldLines, List.countP_cons, ← ih]
      cases hField : field? style line with
      | none =>
          split
          · simp [hField]
          · rfl
      | some field =>
          have hMarked := isMarked_of_field? (Option.isSome_of_mem hField)
          simp [hMarked, hField]

/-- Underlined titles are counted as pairs of neighbouring lines. -/
theorem length_numpySections {text : List (List Char)}
    {sections : List (String × List (List Char))} (h : numpySections text = some sections) :
    sections.length = (text.zip text.tail).countP fun pair => isTitle pair.1 pair.2 := by
  induction text generalizing sections with
  | nil =>
      cases h
      rfl
  | cons line more ih =>
      cases more with
      | nil =>
          cases h
          rfl
      | cons under rest =>
          change _ = List.countP _ ((line, under) :: (under :: rest).zip (under :: rest).tail)
          rw [List.countP_cons]
          rw [numpySections] at h
          split at h
          · next hTitle =>
            split at h
            · cases h
            · obtain ⟨found, hFound, rfl⟩ := Option.map_eq_some_iff.mp h
              rw [List.length_cons, ih hFound, if_pos hTitle]
          · next hPlain => rw [ih h, if_neg hPlain, Nat.add_zero]

/-- What a reading has recognised is the count of entries in the lines of the text. -/
theorem recognised_eq_entries {layout : Layout} {text : List (List Char)} {doc : Documentation}
    (h : readLines layout text = some doc) : doc.recognised = layout.entries text doc.params := by
  cases layout with
  | google =>
      cases h
      exact congrArg (· + _) (length_googleSections text)
  | rest =>
      cases h
      exact length_fields .rest text
  | epydoc =>
      cases h
      exact length_fields .epydoc text
  | numpy =>
      obtain ⟨sections, hSections, rfl⟩ := Option.map_eq_some_iff.mp h
      exact congrArg (· + _) (length_numpySections hSections)

/-- One of several layouts recognises more than those before it and no less than those after. -/
theorem exists_first_most (recognised : Layout → Nat) {layouts : List Layout} (h : layouts ≠ []) :
    ∃ before layout after, layouts = before ++ layout :: after ∧
      (∀ other ∈ before, recognised other < recognised layout) ∧
      ∀ other ∈ after, recognised other ≤ recognised layout := by
  induction layouts with
  | nil => exact absurd rfl h
  | cons first more ih =>
      cases more with
      | nil => exact ⟨[], first, [], rfl, nofun, nofun⟩
      | cons next more =>
          obtain ⟨before, layout, after, hSplit, hBefore, hAfter⟩ := ih (List.cons_ne_nil next more)
          by_cases hFirst : recognised first < recognised layout
          · refine ⟨first :: before, layout, after, congrArg (first :: ·) hSplit, ?_, hAfter⟩
            exact List.forall_mem_cons.mpr ⟨hFirst, hBefore⟩
          · refine ⟨[], first, next :: more, rfl, nofun, fun other hm => ?_⟩
            rw [hSplit, List.mem_append, List.mem_cons] at hm
            rcases hm with hm | rfl | hm
            · have hLess := hBefore other hm
              omega
            · omega
            · have hLess := hAfter other hm
              omega

/-- A text that every layout can read is read in the layout that recognises the most entries, and in
the earliest one of several. -/
theorem read_recognises_most {text : String} {readings : Layout → Documentation}
    (h : ∀ layout, readAs layout text = some (readings layout)) :
    (∀ layout, (readings layout).recognised =
      layout.entries (lines (clean text.toList)) (readings layout).params) ∧
    ∃ before layout after, Layout.all = before ++ layout :: after ∧
      read text = some (readings layout) ∧
      (∀ other ∈ before, (readings other).recognised < (readings layout).recognised) ∧
      ∀ other ∈ after, (readings other).recognised ≤ (readings layout).recognised := by
  refine ⟨fun layout => recognised_eq_entries (h layout), ?_⟩
  obtain ⟨before, layout, after, hAll, hBefore, hAfter⟩ :=
    @exists_first_most (fun layout => (readings layout).recognised) Layout.all nofun
  refine ⟨before, layout, after, hAll, ?_, hBefore, hAfter⟩
  rw [read_eq_mostRecognised h, hAll, List.map_append, List.map_cons]
  exact mostRecognised_append_cons (List.forall_mem_map.mpr hBefore)
    (List.forall_mem_map.mpr hAfter)

/-- One line for each of the layouts with marked items. What is an item in one of them is text in
the other. -/
def twoItems : Layout → Documentation
  | .rest => ⟨.rest, none, none, [⟨"a", none, some "first\n@param b: second"⟩], 1⟩
  | .epydoc => ⟨.epydoc, some ":param a: first", none, [⟨"b", none, some "second"⟩], 1⟩
  | layout => ⟨layout, some ":param a: first", some "@param b: second", [], 0⟩

/-- Two layouts recognise one entry each, and the earlier one is chosen. -/
theorem twoItems_recognise_most :
    (∀ layout, readAs layout ":param a: first\n@param b: second" = some (twoItems layout)) ∧
    ∃ before layout after, Layout.all = before ++ layout :: after ∧
      read ":param a: first\n@param b: second" = some (twoItems layout) ∧
      (∀ other ∈ before, (twoItems other).recognised < (twoItems layout).recognised) ∧
      ∀ other ∈ after, (twoItems other).recognised ≤ (twoItems layout).recognised := by
  have h (layout : Layout) : readAs layout ":param a: first\n@param b: second" =
      some (twoItems layout) := by
    cases layout <;> decide +kernel
  exact ⟨h, (read_recognises_most h).2⟩

/-- A section that lists no parameters counts as much as a parameter of another layout, and the
parameter is lost. -/
theorem section_outweighs_parameter :
    (∀ layout, (readAs layout "Returns:\n:param a: text").isSome = true) ∧
      (read "Returns:\n:param a: text").map (fun doc => doc.params.length) = some 0 ∧
      (readAs .rest "Returns:\n:param a: text").map (fun doc => doc.params.length) = some 1 := by
  refine ⟨fun layout => ?_, ?_, ?_⟩
  · cases layout <;> decide +kernel
  · decide +kernel
  · decide +kernel

end ToolSchema.Documentation
