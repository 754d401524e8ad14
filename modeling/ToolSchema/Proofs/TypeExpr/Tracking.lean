import ToolSchema.Proofs.TypeExpr.Moments

/-! The cursor beside the reading that takes the text apart from its front: both end at the same
place and in the same way, up to white space that one of them has passed already. Here this is
proved for tokens and for lists. -/
namespace ToolSchema.TypeExpr.Cursor

open Text (Parsed Scanned trimStart trimStart_length_le length_dropWhile_le)

variable {input : String} {text : List Char}

/-! Runs beside readings -/

/-- The run ends where and how the reading of the same text ends: with a result that goes together
with the one of the reading, or with its failure. -/
inductive Tracks {α β : Type} (input : String) (reader : Cursor α) (text : List Char)
    (Together : α → List Char → β → Prop) : Reading β → Prop
  | ok {a : α} {rest : List Char} {b : β} (hRest : rest <:+ text)
      (h : Runs input reader text (.ok a) rest) (hTogether : Together a rest b) :
      Tracks input reader text Together (.ok b)
  | error {failure : Failure} (hRest : failure.rest <:+ input.toList)
      (h : Runs input reader text
        (.error (.fault ⟨input, offset input failure.rest, failure.fault⟩)) failure.rest) :
      Tracks input reader text Together (.error failure)

section

variable {α β γ δ : Type} {mid rest : List Char}

/-- A step of the cursor without a counterpart in the reading. -/
theorem Tracks.after {reader : Cursor α} {next : α → Cursor γ} {a : α} {reading : Reading δ}
    {Then : γ → List Char → δ → Prop} (h : Runs input reader text (.ok a) mid)
    (hMid : mid <:+ text) (hNext : Tracks input (next a) mid Then reading) :
    Tracks input (reader >>= next) text Then reading := by
  cases hNext with
  | error hRest hNext => exact .error hRest (h.bind hNext)
  | ok hRest hNext hThen => exact .ok (hRest.trans hMid) (h.bind hNext) hThen

/-- A step of the cursor that leaves it where it is. -/
theorem Tracks.look {reader : Cursor α} {next : α → Cursor γ} {a : α} {reading : Reading δ}
    {Then : γ → List Char → δ → Prop} (h : Runs input reader text (.ok a) text)
    (hNext : Tracks input (next a) text Then reading) :
    Tracks input (reader >>= next) text Then reading := .after h (List.suffix_refl text) hNext

/-- The cursor moves behind a character. -/
theorem Tracks.pass {c : Char} {room : Nat} {calls : List Call} {next : Unit → Cursor γ}
    {reading : Reading δ} {Then : γ → List Char → δ → Prop}
    (h : Within input (c :: rest) room calls) (hNext : Tracks input (next ()) rest Then reading) :
    Tracks input (advance calls >>= next) (c :: rest) Then reading :=
  .after (runs_advance h) (List.suffix_cons c rest) hNext

/-- A run beside a reading, step by step: the next steps start from results that go together. -/
theorem Tracks.bind {reader : Cursor α} {next : α → Cursor γ} {reading : Reading β}
    {go : β → Reading δ} {Together : α → List Char → β → Prop} {Then : γ → List Char → δ → Prop}
    (h : Tracks input reader text Together reading)
    (hNext : ∀ a mid b, mid <:+ text → Together a mid b →
      Tracks input (next a) mid Then (go b)) :
    Tracks input (reader >>= next) text Then (reading >>= go) := by
  cases h with
  | error hRest h => exact .error hRest h.bind_error
  | @ok a mid b hMid h hTogether => exact .after h hMid (hNext a mid b hMid hTogether)

theorem Tracks.imp {reader : Cursor α} {reading : Reading β}
    {Together Then : α → List Char → β → Prop} (h : Tracks input reader text Together reading)
    (hThen : ∀ a rest b, Together a rest b → Then a rest b) :
    Tracks input reader text Then reading := by
  cases h with
  | error hRest h => exact .error hRest h
  | ok hRest h hTogether => exact .ok hRest h (hThen _ _ _ hTogether)

/-- What is done to the result of the cursor alone. -/
theorem Tracks.map {reader : Cursor α} {f : α → γ} {reading : Reading β}
    {Together : α → List Char → β → Prop} {Then : γ → List Char → β → Prop}
    (h : Tracks input reader text Together reading)
    (hThen : ∀ a rest b, Together a rest b → Then (f a) rest b) :
    Tracks input (do return f (← reader)) text Then reading := by
  cases h with
  | error hRest h => exact .error hRest h.bind_error
  | ok hRest h hTogether => exact .ok hRest (h.bind (runs_pure _)) (hThen _ _ _ hTogether)

/-- What is done to the result of the reading alone. -/
theorem Tracks.map_reading {reader : Cursor α} {g : β → δ} {reading : Reading β}
    {Together : α → List Char → β → Prop} {Then : α → List Char → δ → Prop}
    (h : Tracks input reader text Together reading)
    (hThen : ∀ a rest b, Together a rest b → Then a rest (g b)) :
    Tracks input reader text Then (do return g (← reading)) := by
  cases h with
  | error hRest h => exact .error hRest h
  | ok hRest h hTogether => exact .ok hRest h (hThen _ _ _ hTogether)

theorem tracks_pure {a : α} {b : β} {Together : α → List Char → β → Prop}
    (h : Together a text b) : Tracks input (pure a) text Together (.ok b) :=
  .ok (List.suffix_refl text) (runs_pure a) h

/-- A failure is reported where the cursor stands and where the reading stops, which is the same
place. -/
theorem tracks_fail {fault : TypeFault} {Together : α → List Char → β → Prop}
    (h : text <:+ input.toList) :
    Tracks input (fail fault) text Together (.error ⟨fault, text⟩) := .error h (runs_fail fault)

/-- A failure that is put back to an earlier place. -/
theorem tracks_fail_at {room : Nat} {calls : List Call} {fault : TypeFault}
    {Together : α → List Char → β → Prop} (h : Within input rest room calls) :
    Tracks input (do
      moveTo calls (offset input rest)
      fail fault) text Together (.error ⟨fault, rest⟩) :=
  .error h.suffix ((runs_moveTo h).bind (runs_fail fault))

end

/-! Results side by side -/

/-- The cursor has moved and has got the value and the rest of the reading. -/
structure Reached {α : Type} (text : List Char) {text' : List Char} (value : α) (rest : List Char)
    (p : Parsed α text') : Prop where
  value : value = p.value
  rest_eq : rest = p.rest
  shorter : rest.length < text.length

/-- The same if white space before the rest does not count. -/
structure Neared {α : Type} (text : List Char) {text' : List Char} (value : α) (rest : List Char)
    (p : Parsed α text') : Prop where
  value : value = p.value
  rest_eq : trimStart rest = trimStart p.rest
  shorter : rest.length < text.length

/-- The same of a reading that need not have moved. -/
structure Passed {α : Type} {text' : List Char} (value : α) (rest : List Char)
    (p : Scanned α text') : Prop where
  value : value = p.value
  rest_eq : trimStart rest = trimStart p.rest

/-- A cursor that stands exactly at the rest stands there up to white space. -/
theorem Reached.neared {α : Type} {text text' rest : List Char} {value : α} {p : Parsed α text'}
    (h : Reached text value rest p) : Neared text value rest p :=
  ⟨h.value, congrArg trimStart h.rest_eq, h.shorter⟩

theorem Neared.whole {α : Type} {text text' rest whole : List Char} {value : α} {p : Parsed α text'}
    (h : Neared text value rest p) (hWhole : text.length ≤ whole.length) :
    Neared whole value rest p := ⟨h.value, h.rest_eq, Nat.lt_of_lt_of_le h.shorter hWhole⟩

/-- The value may be put into a larger one, and the text be seen as part of a longer one. -/
theorem Reached.lift {α β : Type} {text rest source whole text' : List Char} {value : α}
    {p : Parsed α source} (h : Reached text value rest p) (f : α → β)
    (hWhole : text.length ≤ whole.length) (hSource : source.length ≤ text'.length) :
    Reached whole (f value) rest (p.lift f hSource) :=
  ⟨congrArg f h.value, h.rest_eq, Nat.lt_of_lt_of_le h.shorter hWhole⟩

section

variable {text' : List Char} {room : Nat} {calls : List Call}

/-! Tokens -/

/-- What follows a mark is a later part of the text. -/
theorem suffix_of_next {c : Char} {rest : List Char} (h : trimStart text = c :: rest) :
    rest <:+ text ∧ rest.length < text.length := by
  have hLength := trimStart_length_le text
  have hRest := (List.suffix_cons c rest).trans (h ▸ trimStart_suffix text)
  rw [h, List.length_cons] at hLength
  exact ⟨hRest, hLength⟩

/-- A mark is taken or missed by both. From here on the cursor may have passed white space that the
reading has still before it. -/
theorem tracks_expect {c : Char} (h : Ready input text .blanks room calls)
    (hSame : trimStart text = trimStart text') :
    Tracks input (expect c room calls) text
      (fun _ rest after => rest = after.1 ∧ rest.length < text.length)
      (TypeExpr.expect c text') := by
  have hThere := (trimStart_suffix text).trans h.suffix
  rw [TypeExpr.expect]
  split
  · next hEnd =>
    rw [← hSame] at hEnd
    have hOther (after : List Char) : trimStart text ≠ c :: after := by
      rw [hEnd]
      exact (List.cons_ne_nil c after).symm
    refine .after (runs_eat_of_not_next h hOther) (trimStart_suffix text) ?_
    rw [hEnd] at hThere ⊢
    exact tracks_fail hThere
  · next d rest hStart =>
    rw [← hSame] at hStart
    split
    · next hChar =>
      subst hChar
      obtain ⟨hRest, hShort⟩ := suffix_of_next hStart
      exact .after (runs_eat_of_next h hStart) hRest (tracks_pure ⟨rfl, hShort⟩)
    · next hChar =>
      have hOther (after : List Char) : trimStart text ≠ c :: after := by
        intro hNext
        exact hChar (List.cons.inj (hStart.symm.trans hNext)).1
      refine .after (runs_eat_of_not_next h hOther) (trimStart_suffix text) ?_
      rw [hStart] at hThere ⊢
      exact tracks_fail hThere

/-- A name ends at the first character that is not one of its characters, for both. -/
theorem tracks_name (h : Ready input text .blanks room calls)
    (hSame : trimStart text = trimStart text') :
    Tracks input (name room calls) text (Reached text) (readName text') := by
  have hStart := trimStart_suffix text
  have hMoved := h.move hStart
  have hSplit : (trimStart text).takeWhile isNameChar ++ (trimStart text).dropWhile isNameChar =
      trimStart text := List.takeWhile_append_dropWhile
  have hName : Ready input (trimStart text) .name room calls := hMoved.of_rank_le (Nat.le_refl _)
  simp only [readName, ← hSame]
  refine .after (runs_skipBlanks h) hStart (.look runs_position ?_)
  refine .after (runs_skipWhile hName) (List.dropWhile_suffix _) (.look runs_position ?_)
  refine .look (runs_slice hMoved.suffix hSplit) ?_
  by_cases hBad : (trimStart text).takeWhile isNameChar = [] ∨
      ((trimStart text).takeWhile isNameChar).head? = some '.' ∨
      ((trimStart text).takeWhile isNameChar).getLast? = some '.'
  · rw [if_pos hBad, dif_pos hBad]
    exact tracks_fail_at hMoved.within
  · rw [if_neg hBad, dif_neg hBad]
    have hShort := name_shorter fun hEmpty => hBad (.inl hEmpty)
    exact tracks_pure ⟨rfl, rfl, Nat.lt_of_lt_of_le hShort hStart.length_le⟩

/-- The three cases of the reader, for a character that is none of the two special ones. -/
theorem not_backslash {c : Char} {rest : List Char} (hLast : c = '\\' → rest = [] → False)
    (hEscape : ∀ d more, c = '\\' → rest = d :: more → False) : c ≠ '\\' := by
  intro hChar
  cases rest with
  | nil => exact hLast hChar rfl
  | cons d more => exact hEscape d more hChar rfl

/-- A character without a backslash before it, which may be the closing quote. -/
theorem tracks_untilQuote_cons {β : Type} {quote c : Char} {rest : List Char}
    {reading : Reading β} {Then : List Char → List Char → β → Prop}
    (h : Ready input (c :: rest) .quoted (room + 1) calls) (hPlain : c ≠ '\\')
    (hNext : Tracks input (do
      if c = quote then return []
      else return c :: (← untilQuote quote room (⟨.quoted, offset input (c :: rest)⟩ :: calls)))
      rest Then reading) :
    Tracks input (untilQuote quote (room + 1) calls) (c :: rest) Then reading := by
  refine .look (runs_enter h) (.look (runs_current h.suffix) ?_)
  dsimp only [List.head?_cons]
  split
  · next hFirst => exact absurd (Option.some.inj hFirst) hPlain
  · next hFirst =>
    cases hFirst
    exact .pass h.entered hNext
  · next hNone => cases hNone

/-- By induction over the cases of the reader: a quote, a backslash with what follows it, the end of
the text, and any other character. -/
theorem tracks_untilQuote {quote : Char} (h : Ready input text .quoted room calls) :
    Tracks input (untilQuote quote room calls) text
      (fun chars rest p => chars = p.value ∧ rest = p.rest) (readQuoted quote text) := by
  -- The cases of the reading: no text, a backslash at the end, an escaped character, the closing
  -- quote, and any other character.
  induction text using readQuoted.induct quote generalizing room calls with
  | case1 =>
      obtain ⟨room, rfl⟩ := h.exists_room
      exact .look (runs_enter h) (.look (runs_current h.suffix) (tracks_fail h.suffix))
  | case2 =>
      obtain ⟨room, rfl⟩ := h.exists_room
      have hEnd := h.entered.move (List.suffix_cons _ _)
      refine .look (runs_enter h) (.look (runs_current h.suffix) ?_)
      exact .pass h.entered (.look (runs_current hEnd.suffix) (tracks_fail hEnd.suffix))
  | case3 c rest ih =>
      obtain ⟨room, rfl⟩ := h.exists_room
      have hEscaped := h.entered.move (List.suffix_cons _ _)
      have hBehind : Ready input rest .quoted room _ :=
        hEscaped.later (List.suffix_cons c rest) (Nat.lt_succ_self _)
      rw [readQuoted]
      refine .look (runs_enter h) (.look (runs_current h.suffix) ?_)
      refine .pass h.entered (.look (runs_current hEscaped.suffix) ?_)
      refine .pass hEscaped ((ih hBehind).bind ?_)
      rintro _ _ p _ ⟨rfl, rfl⟩
      exact tracks_pure ⟨rfl, rfl⟩
  | case4 rest hLast hEscape =>
      -- The equation for a plain character rules out both cases of a backslash.
      obtain ⟨room, rfl⟩ := h.exists_room
      rw [readQuoted.eq_4 _ _ _ hLast hEscape, if_pos rfl]
      refine tracks_untilQuote_cons h (not_backslash hLast hEscape) ?_
      rw [if_pos rfl]
      exact tracks_pure ⟨rfl, rfl⟩
  | case5 c rest hLast hEscape hQuote ih =>
      obtain ⟨room, rfl⟩ := h.exists_room
      have hBehind : Ready input rest .quoted room _ :=
        h.entered.later (List.suffix_cons c rest) (Nat.lt_succ_self _)
      rw [readQuoted.eq_4 _ _ _ hLast hEscape, if_neg hQuote]
      refine tracks_untilQuote_cons h (not_backslash hLast hEscape) ?_
      rw [if_neg hQuote]
      refine (ih hBehind).bind ?_
      rintro _ _ p _ ⟨rfl, rfl⟩
      exact tracks_pure ⟨rfl, rfl⟩

/-- The cursor has passed the opening quote, and both go on to the closing one. -/
theorem tracks_quoted {quote c : Char} {rest : List Char}
    (h : Ready input (c :: rest) .blanks room calls) :
    Tracks input (quoted quote room calls) (c :: rest)
      (fun value after p => value = .ofList p.value ∧ after = p.rest) (readQuoted quote rest) := by
  have hInside : Ready input rest .quoted room calls :=
    h.within.later (List.suffix_cons c rest) (Nat.lt_succ_self _)
  refine .pass h.within ((tracks_untilQuote hInside).map ?_)
  rintro chars _ p ⟨rfl, rfl⟩
  exact ⟨rfl, rfl⟩

/-- A minus sign is passed here, and every other start of a number by the loop that comes next. -/
theorem exists_runs_skipMinus {first : Char} {rest : List Char}
    (h : Ready input (first :: rest) .blanks room calls) (hNumber : startsNumber first = true) :
    ∃ mid, Runs input (skipMinus calls) (first :: rest) (.ok ()) mid ∧ mid <:+ first :: rest ∧
      mid.dropWhile isNumberChar = rest.dropWhile isNumberChar := by
  by_cases hMinus : first = '-'
  · refine ⟨rest, (runs_current_cons h.suffix).bind ?_, List.suffix_cons _ _, rfl⟩
    rw [if_pos (congrArg some hMinus)]
    exact runs_advance h.within
  · have hChar : isNumberChar first = true := by
      simp only [startsNumber, Bool.or_eq_true, beq_iff_eq, hMinus, or_false] at hNumber
      simp only [isNumberChar, hNumber, Bool.true_or]
    refine ⟨first :: rest, (runs_current_cons h.suffix).bind ?_, List.suffix_refl _,
      List.dropWhile_cons_of_pos hChar⟩
    rw [if_neg fun hSome => hMinus (Option.some.inj hSome)]
    exact runs_pure _

/-- A sign and the run behind it are cut out of the input as one slice, which is the text that the
reading converts. -/
theorem tracks_number {first : Char} {rest : List Char}
    (h : Ready input (first :: rest) .blanks room calls) (hNumber : startsNumber first = true) :
    Tracks input (number room calls) (first :: rest) (Reached (first :: rest))
      (readNumber first rest) := by
  obtain ⟨mid, hMinus, hMid, hDrop⟩ := exists_runs_skipMinus h hNumber
  have hDigits : Ready input mid .number room calls := (h.move hMid).of_rank_le (Nat.le_refl _)
  have hSkip := runs_skipWhile (p := isNumberChar) hDigits
  have hEnd : mid.dropWhile isNumberChar <:+ mid := List.dropWhile_suffix _
  have hSplit : (first :: rest.takeWhile isNumberChar) ++ rest.dropWhile isNumberChar =
      first :: rest := by rw [List.cons_append, List.takeWhile_append_dropWhile]
  have hShort := Nat.lt_succ_of_le (length_dropWhile_le isNumberChar rest)
  rw [hDrop] at hSkip hEnd
  refine .look runs_position (.after hMinus hMid ?_)
  refine .after hSkip hEnd (.look runs_position ?_)
  refine .look (runs_slice h.suffix hSplit) ?_
  unfold readNumber
  dsimp only
  generalize (first :: rest.takeWhile isNumberChar).filter (· != '_') = digits
  cases Number.int64? digits with
  | some n => exact tracks_pure ⟨rfl, rfl, hShort⟩
  | none =>
      cases Number.binary64? digits with
      | some x => exact tracks_pure ⟨rfl, rfl, hShort⟩
      | none => exact tracks_fail_at h.within

/-- The kind of a constant is decided by the same character on both sides, and failures are put back
to it. -/
theorem tracks_constant (h : Ready input text .blanks room calls)
    (hSame : trimStart text = trimStart text') :
    Tracks input (constant room calls) text (Reached text) (readConstant text') := by
  have hMoved := h.move (trimStart_suffix text)
  have hLength := trimStart_length_le text
  have hSkip := runs_skipBlanks h
  rw [readConstant]
  split
  · next hEnd =>
    rw [← hSame] at hEnd
    rw [hEnd] at hMoved hSkip
    exact .after hSkip List.nil_suffix
      (.look (runs_current hMoved.suffix) (tracks_fail hMoved.suffix))
  · next c rest hStart =>
    rw [← hSame] at hStart
    refine .after hSkip (trimStart_suffix text) ?_
    rw [hStart] at hMoved hLength ⊢
    refine .look (runs_current hMoved.suffix) ?_
    dsimp only [List.head?_cons]
    split
    · refine (tracks_quoted hMoved).bind ?_
      rintro _ _ p _ ⟨rfl, rfl⟩
      exact tracks_pure ⟨rfl, rfl, Nat.lt_of_lt_of_le p.shorter (Nat.le_of_lt hLength)⟩
    · split
      · next hNumber =>
        refine (tracks_number hMoved hNumber).map_reading ?_
        intro _ _ p hReached
        exact hReached.lift id hLength _
      · refine (tracks_name hMoved rfl).bind ?_
        rintro _ _ p hRest ⟨rfl, rfl, hShort⟩
        have hShorter := Nat.lt_of_lt_of_le hShort hLength
        by_cases hTrue : p.value = "True" ∨ p.value = "true"
        · rw [if_pos hTrue]
          rcases hTrue with hWord | hWord
          all_goals
            simp only [hWord]
            exact tracks_pure ⟨rfl, rfl, hShorter⟩
        · rw [if_neg hTrue]
          by_cases hFalse : p.value = "False" ∨ p.value = "false"
          · rw [if_pos hFalse]
            rcases hFalse with hWord | hWord
            all_goals
              simp only [hWord]
              exact tracks_pure ⟨rfl, rfl, hShorter⟩
          · rw [if_neg hFalse]
            rw [not_or] at hTrue hFalse
            split
            · next hWord => exact absurd hWord hTrue.1
            · next hWord => exact absurd hWord hTrue.2
            · next hWord => exact absurd hWord hFalse.1
            · next hWord => exact absurd hWord hFalse.2
            · exact tracks_fail (hRest.trans hMoved.suffix)

theorem tracks_tag (h : Ready input text .blanks room calls)
    (hSame : trimStart text = trimStart text') :
    Tracks input (tag room calls) text (Reached text) (readTag text') := by
  have hMoved := h.move (trimStart_suffix text)
  have hLength := trimStart_length_le text
  have hSkip := runs_skipBlanks h
  rw [readTag]
  split
  · next hEnd =>
    rw [← hSame] at hEnd
    refine .after hSkip (trimStart_suffix text) ?_
    rw [hEnd] at hMoved ⊢
    refine .look (runs_current hMoved.suffix) ?_
    -- An empty text has no name, so the case of success cannot occur.
    have hName : Tracks input (name room calls) [] (Reached []) (readName []) :=
      tracks_name hMoved rfl
    cases hName with
    | error hRest h => exact .error hRest h
  · next c rest hStart =>
    rw [← hSame] at hStart
    refine .after hSkip (trimStart_suffix text) ?_
    rw [hStart] at hMoved hLength ⊢
    refine .look (runs_current hMoved.suffix) ?_
    dsimp only [List.head?_cons]
    split
    · refine (tracks_quoted hMoved).map_reading ?_
      rintro _ _ p ⟨rfl, rfl⟩
      exact ⟨rfl, rfl, Nat.lt_of_lt_of_le p.shorter (Nat.le_of_lt hLength)⟩
    · split
      · next hNumber =>
        refine (tracks_number hMoved hNumber).bind ?_
        intro _ _ p _ hReached
        exact tracks_pure (hReached.lift Constant.text hLength _)
      · refine (tracks_name hMoved rfl).map_reading ?_
        intro _ _ p hReached
        exact hReached.lift id hLength _

/-! Lists -/

/-- Wherever a part of the reader may be called in this text, it does what the reading does. -/
def TracksAt {α : Type} (input : String) (text : List Char) (procedure : Procedure)
    (reader : Nat → List Call → Cursor α) (read : (text : List Char) → Reading (Parsed α text)) :
    Prop :=
  ∀ text' room calls, trimStart text = trimStart text' → Ready input text procedure room calls →
    Tracks input (reader room calls) text (Neared text) (read text')

/-- The scan reads one element after each mark, and ends where no mark comes. -/
structure ScansEach {α : Type} (mark : Char) (read : (text : List Char) → Reading (Parsed α text))
    (scan : (text : List Char) → Reading (Scanned (List α) text)) : Prop where
  stop {text : List Char} (h : TypeExpr.eat mark text = none) :
    ∃ hLength, scan text = .ok ⟨[], text, hLength⟩
  next {text : List Char} {after : { rest : List Char // rest.length < text.length }}
    (h : TypeExpr.eat mark text = some after) :
    ∃ hLength : ∀ (first : Parsed α after.1) (more : Scanned (List α) first.rest),
      more.rest.length ≤ text.length, scan text = (do
        let first ← read after.1
        let more ← scan first.rest
        return ⟨first.value :: more.value, more.rest, hLength first more⟩)

/-- The three loops of the reading, by one description: at a separator one more element is read, and
otherwise the loop ends. -/
theorem scansEach_readMore {α : Type} (read : (text : List Char) → Reading (Parsed α text)) :
    ScansEach ',' read (readMore read) where
  stop h := by
    rw [readMore, h]
    exact ⟨_, rfl⟩
  next h := by
    rw [readMore, h]
    exact ⟨_, rfl⟩

theorem scansEach_readArms (names : Names) :
    ScansEach '|' (readPrimary names) (readArms names) where
  stop h := by
    rw [readArms, h]
    exact ⟨_, rfl⟩
  next h := by
    rw [readArms, h]
    exact ⟨_, rfl⟩

theorem scansEach_readMoreArgs (names : Names) :
    ScansEach ',' (readUnion names) (readMoreArgs names) where
  stop h := by
    rw [readMoreArgs, h]
    exact ⟨_, rfl⟩
  next h := by
    rw [readMoreArgs, h]
    exact ⟨_, rfl⟩

/-- A loop that has used some of its room while its elements still get all of it. -/
theorem tracks_more {α : Type} {mark : Char} {read : (text : List Char) → Reading (Parsed α text)}
    {scan : (text : List Char) → Reading (Scanned (List α) text)} (hScan : ScansEach mark read scan)
    {loop part : Procedure} (hLoop : Procedure.blanks.rank < loop.rank)
    {reader : Nat → List Call → Cursor α} {most : Nat} (hMost : room ≤ most)
    (hElement : ∀ rest : List Char, rest.length < text.length →
      TracksAt input rest part reader read)
    (h : Ready input text loop room calls) (hSame : trimStart text = trimStart text') :
    Tracks input (more loop mark (reader most) room calls) text Passed (scan text') := by
  -- The length of what is left carries the rounds of the loop. The room falls by one with each
  -- of them while `most`, the room of an element, stays.
  induction hLength : text.length using Nat.strongRecOn generalizing text text' room calls with
  | ind n ih =>
      subst hLength
      obtain ⟨room, rfl⟩ := h.exists_room
      refine .look (runs_enter h) ?_
      cases hEat : TypeExpr.eat mark text' with
      | none =>
          obtain ⟨_, hStop⟩ := hScan.stop hEat
          rw [hStop]
          have hOther := eat_eq_none_iff.mp hEat
          rw [← hSame] at hOther
          exact .after (runs_eat_of_not_next (h.inside hLoop) hOther) (trimStart_suffix text)
            (tracks_pure ⟨rfl, (trimStart_trimStart text).trans hSame⟩)
      | some after =>
          obtain ⟨_, hNext⟩ := hScan.next hEat
          rw [hNext]
          have hStart := hSame.trans (eat_eq_some_iff.mp hEat)
          obtain ⟨hRest, hShort⟩ := suffix_of_next hStart
          refine .after (runs_eat_of_next (h.inside hLoop) hStart) hRest ?_
          have hReady : Ready input after.1 part most _ :=
            (h.entered.later hRest hShort).of_room_le (Nat.le_of_succ_le hMost)
          refine (hElement _ hShort after.1 most _ rfl hReady).bind ?_
          rintro _ mid first hMid ⟨rfl, hEnds, hLess⟩
          have hShorter := Nat.lt_trans hLess hShort
          refine (ih _ hShorter (Nat.le_of_succ_le hMost)
            (fun rest hLess => hElement rest (Nat.lt_trans hLess hShorter))
            (h.entered.later (hMid.trans hRest) hShorter) hEnds rfl).bind ?_
          rintro _ last p _ ⟨rfl, hLast⟩
          exact tracks_pure ⟨rfl, hLast⟩

/-- A list in brackets: a first element, more behind commas, and the bracket at the end. -/
theorem tracks_elements {α : Type} {read : (text : List Char) → Reading (Parsed α text)}
    {scan : (text : List Char) → Reading (Scanned (List α) text)} (hScan : ScansEach ',' read scan)
    {loop part : Procedure} (hLoop : Procedure.blanks.rank < loop.rank)
    {reader : Nat → List Call → Cursor α}
    (hElement : ∀ rest : List Char, rest.length ≤ text.length →
      TracksAt input rest part reader read)
    (h : ∀ procedure, Ready input text procedure room calls)
    (hSame : trimStart text = trimStart text') {whole : List Char}
    (hLength : ∀ (first : Parsed α text') (more : Scanned (List α) first.rest)
      (close : { rest : List Char // rest.length < more.rest.length }),
      close.1.length < whole.length) :
    Tracks input (elements loop (reader room) room calls) text (Reached text) (do
      let first ← read text'
      let more ← scan first.rest
      let close ← TypeExpr.expect ']' more.rest
      return (⟨first.value :: more.value, close.1, hLength first more close⟩ :
        Parsed (List α) whole)) := by
  refine (hElement text (Nat.le_refl _) text' room calls hSame (h part)).bind ?_
  rintro _ mid first hMid ⟨rfl, hEnds, hShort⟩
  refine (tracks_more hScan hLoop (Nat.le_refl _)
    (fun rest hLess => hElement rest (Nat.le_of_lt (Nat.lt_trans hLess hShort)))
    ((h loop).within.later hMid hShort) hEnds).bind ?_
  rintro _ last more hLast ⟨rfl, hEnds⟩
  have hRest := hLast.trans hMid
  refine (tracks_expect ((h .blanks).move hRest) hEnds).bind ?_
  rintro _ _ close _ ⟨rfl, hLess⟩
  exact tracks_pure ⟨rfl, rfl, Nat.lt_of_lt_of_le hLess hRest.length_le⟩

/-- The elements of a literal are constants. -/
theorem tracks_constants (h : ∀ procedure, Ready input text procedure room calls)
    (hSame : trimStart text = trimStart text') :
    Tracks input (elements .constants (constant room) room calls) text (Reached text)
      (readConstants text') := by
  have hConstant (rest : List Char) : TracksAt input rest .blanks constant readConstant :=
    fun _ _ _ hSame h => (tracks_constant h hSame).imp fun _ _ _ => Reached.neared
  exact tracks_elements (scansEach_readMore readConstant) (by decide)
    (fun rest _ => hConstant rest) h hSame _

end

end ToolSchema.TypeExpr.Cursor
