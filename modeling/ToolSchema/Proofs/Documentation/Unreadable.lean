import ToolSchema.Proofs.Documentation.Layouts
import ToolSchema.Proofs.Documentation.Positions

/-! The texts that cannot be read. A layout with underlined titles fails on a title with two
underlines, and on nothing else. -/
namespace ToolSchema.Documentation

open Text

/-- The line is a run of three or more dashes, with white space around it. -/
def Underlines (line : List Char) : Prop :=
  ∃ before dashes after, line = before ++ (List.replicate dashes '-' ++ after) ∧ 3 ≤ dashes ∧
    (∀ c ∈ before, isBlank c = true) ∧ ∀ c ∈ after, isBlank c = true

/-- Three lines stand one below the other: one that is not blank, and two underlines. -/
def UnderlinedTwice (text : List (List Char)) : Prop :=
  ∃ before title first second after, text = before ++ title :: first :: second :: after ∧
    allBlank title = false ∧ Underlines first ∧ Underlines second

/-- The test for an underline as a shape of the line. -/
theorem isUnderline_iff {line : List Char} : isUnderline line = true ↔ Underlines line := by
  constructor
  · intro h
    obtain ⟨before, after, hLine, hBefore, hAfter⟩ := exists_blank_ends line
    obtain ⟨hLength, hDashes⟩ := Bool.and_eq_true_iff.mp h
    have hTrim : trim line = List.replicate (trim line).length '-' :=
      List.eq_replicate_iff.mpr ⟨rfl, fun c hm => eq_of_beq (List.all_eq_true.mp hDashes c hm)⟩
    refine ⟨before, (trim line).length, after, ?_, of_decide_eq_true hLength, hBefore, hAfter⟩
    rw [← hTrim]
    exact hLine
  · intro h
    obtain ⟨before, dashes, after, rfl, hDashes, hBefore, hAfter⟩ := h
    obtain ⟨hOpens, hCloses⟩ := opens_closes_dashes (Nat.zero_lt_of_lt hDashes)
    have hUnderline := isUnderline_dashes hDashes
    rw [isUnderline, trim_eq_self hOpens hCloses] at hUnderline
    rw [isUnderline, trim_of_blank_ends hBefore hAfter hOpens hCloses]
    exact hUnderline

theorem UnderlinedTwice.below {text : List (List Char)} (h : UnderlinedTwice text)
    (line : List Char) : UnderlinedTwice (line :: text) := by
  obtain ⟨before, title, first, second, after, rfl, hTwice⟩ := h
  exact ⟨line :: before, title, first, second, after, rfl, hTwice⟩

/-- Where there are no sections, a title has an underline that is a title itself. -/
theorem underlinedTwice_of_numpySections {text : List (List Char)}
    (h : numpySections text = none) : UnderlinedTwice text := by
  induction text with
  | nil => cases h
  | cons line more ih =>
      cases more with
      | nil => cases h
      | cons first rest =>
          rw [numpySections] at h
          by_cases hTitle : isTitle line first = true
          · rw [if_pos hTitle] at h
            obtain ⟨hLine, hFirst⟩ := Bool.and_eq_true_iff.mp hTitle
            by_cases hTwice : rest.head?.any isUnderline = true
            · cases rest with
              | nil => cases hTwice
              | cons second after =>
                  exact ⟨[], line, first, second, after, rfl, (Bool.not_eq_true' _).mp hLine,
                    isUnderline_iff.mp hFirst, isUnderline_iff.mp hTwice⟩
            · rw [if_neg hTwice] at h
              exact (ih (Option.map_eq_none_iff.mp h)).below line
          · rw [if_neg hTitle] at h
            exact (ih h).below line

/-- No line above makes up for sections that cannot be found. -/
theorem numpySections_cons {text : List (List Char)} (h : numpySections text = none)
    (line : List Char) : numpySections (line :: text) = none := by
  cases text with
  | nil => cases h
  | cons under rest =>
      rw [numpySections, h]
      split
      · split <;> rfl
      · rfl

/-- Where the sections cannot be told apart the three lines stand, and where they stand, the body of
the first title would begin behind the second title. -/
theorem numpySections_eq_none_iff {text : List (List Char)} :
    numpySections text = none ↔ UnderlinedTwice text := by
  refine ⟨underlinedTwice_of_numpySections, fun h => ?_⟩
  obtain ⟨before, title, first, second, after, rfl, hTitle, hFirst, hSecond⟩ := h
  induction before with
  | nil =>
      have hUnderlined : isTitle title first = true := by
        rw [isTitle, hTitle, isUnderline_iff.mpr hFirst]
        rfl
      rw [List.nil_append, numpySections, if_pos hUnderlined]
      exact if_pos (isUnderline_iff.mpr hSecond)
  | cons line before ih => exact numpySections_cons ih line

/-- The other layouts read every text. -/
theorem readLines_eq_none_iff {layout : Layout} {text : List (List Char)} :
    readLines layout text = none ↔ layout = .numpy ∧ UnderlinedTwice text := by
  cases layout with
  | numpy =>
      rw [readLines, readNumpy, Option.map_eq_none_iff, numpySections_eq_none_iff]
      exact (and_iff_right rfl).symm
  | _ =>
      constructor
      · intro h
        cases h
      · intro h
        cases h.1

/-- One of several readings is always chosen. -/
theorem mostRecognised_ne_none (doc : Documentation) (more : List Documentation) :
    mostRecognised (doc :: more) ≠ none := by
  rw [mostRecognised]
  cases mostRecognised more with
  | none => exact Option.some_ne_none doc
  | some best => exact Option.some_ne_none _

/-- A choice between readings needs each of them, and then it has a result. -/
theorem read_eq_none_iff {text : String} : read text = none ↔ readAs .numpy text = none := by
  constructor
  · intro h
    by_contra hNumpy
    have hAll : ∀ layout, ∃ doc, readAs layout text = some doc := by
      intro layout
      refine Option.ne_none_iff_exists'.mp fun hNone => hNumpy ?_
      obtain ⟨rfl, -⟩ := readLines_eq_none_iff.mp hNone
      exact hNone
    choose readings hReadings using hAll
    rw [read_eq_mostRecognised hReadings] at h
    exact mostRecognised_ne_none _ _ h
  · intro h
    simp only [read, Layout.all, List.mapM_cons, h, Option.bind_eq_bind, Option.bind_none,
      Option.bind_fun_none]

/-- No text has a slice that is out of bounds, backwards or cut inside a character, except for the
section below a title with two underlines. Only the layout with underlined titles looks for it,
and with that layout the choice between all of them. -/
theorem reading_fails_iff_underlinedTwice (text : String) :
    (∀ layout, readAs? layout text = readAs layout text ∧
      (readAs layout text = none ↔
        layout = .numpy ∧ UnderlinedTwice (lines (clean text.toList)))) ∧
    read? text = read text ∧
      (read text = none ↔ UnderlinedTwice (lines (clean text.toList))) := by
  refine ⟨fun layout => ⟨readAs?_eq layout text, readLines_eq_none_iff⟩, read?_eq text, ?_⟩
  rw [read_eq_none_iff, readAs, readLines_eq_none_iff]
  exact and_iff_right rfl

example : read "Title\n-----\n-----" = none := by decide +kernel

end ToolSchema.Documentation
