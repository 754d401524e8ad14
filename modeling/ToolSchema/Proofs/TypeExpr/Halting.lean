import ToolSchema.Proofs.TypeExpr.Tracking

/-! Reading a type comes to an end with the cursor on borders of the input all the way. -/
namespace ToolSchema.TypeExpr.Cursor

open Text (Parsed Scanned trimStart)

section

variable {input : String} {text text' whole : List Char} {room : Nat} {calls : List Call}
variable {names : Names}

/-! Types -/

/-- Behind the word for literals stand constants in brackets. -/
theorem tracks_literal (h : ∀ procedure, Ready input text procedure room calls)
    (hLength : ∀ bracket : { rest : List Char // rest.length < text.length },
      bracket.1.length ≤ whole.length) :
    Tracks input (do
      expect '[' room calls
      return .literal (← elements .constants (constant room) room calls)) text (Reached text) (do
      let bracket ← TypeExpr.expect '[' text
      let values ← readConstants bracket.1
      return (values.lift .literal (hLength bracket) : Parsed TypeExpr whole)) := by
  refine (tracks_expect (h .blanks) rfl).bind ?_
  rintro _ _ bracket hRest ⟨rfl, hBracket⟩
  refine (tracks_constants (fun part => (h part).move hRest) rfl).bind ?_
  intro _ _ values _ hReached
  exact tracks_pure (hReached.lift TypeExpr.literal (Nat.le_of_lt hBracket) _)

/-- Arguments are whole types. They stand further on in the text, where both are known to agree. -/
theorem tracks_arguments
    (hUnion : ∀ rest : List Char, rest.length < text.length →
      TracksAt input rest .union (union names) (readUnion names))
    (h : Ready input text .blanks room calls) (hSame : trimStart text = trimStart text') :
    Tracks input (arguments (union names room) room calls) text (Reached text)
      (readArgs names text') := by
  rw [readArgs]
  refine (tracks_expect h hSame).bind ?_
  rintro _ _ bracket hRest ⟨rfl, hShort⟩
  refine (tracks_elements (scansEach_readMoreArgs names) (by decide)
    (fun rest hLess => hUnion rest (Nat.lt_of_le_of_lt hLess hShort))
    (fun _ => h.within.later hRest hShort) rfl _).imp ?_
  rintro _ _ p ⟨rfl, rfl, hLess⟩
  exact ⟨rfl, rfl, Nat.lt_trans hLess hShort⟩

/-- A type with metadata: the type, then tags behind commas. -/
theorem tracks_tagged
    (hUnion : ∀ rest : List Char, rest.length < text.length →
      TracksAt input rest .union (union names) (readUnion names))
    (h : ∀ procedure, Ready input text procedure room calls)
    (hLength : ∀ (bracket : { rest : List Char // rest.length < text.length })
      (inner : Parsed TypeExpr bracket.1) (tags : Scanned (List String) inner.rest)
      (close : { rest : List Char // rest.length < tags.rest.length }),
      close.1.length < whole.length) :
    Tracks input (do
      expect '[' room calls
      let inner ← union names room calls
      let tags ← more .tags ',' (tag room) room calls
      expect ']' room calls
      return .tagged inner tags) text (Reached text) (do
      let bracket ← TypeExpr.expect '[' text
      let inner ← readUnion names bracket.1
      let tags ← readMore readTag inner.rest
      let close ← TypeExpr.expect ']' tags.rest
      return (⟨.tagged inner.value tags.value, close.1, hLength bracket inner tags close⟩ :
        Parsed TypeExpr whole)) := by
  refine (tracks_expect (h .blanks) rfl).bind ?_
  rintro _ _ bracket hRest ⟨rfl, hBracket⟩
  refine (hUnion _ hBracket _ room calls rfl ((h .union).move hRest)).bind ?_
  rintro _ mid inner hMid ⟨rfl, hEnds, hShort⟩
  have hTag (rest : List Char) : TracksAt input rest .blanks tag readTag :=
    fun _ _ _ hSame h => (tracks_tag h hSame).imp fun _ _ _ => Reached.neared
  refine (tracks_more (scansEach_readMore readTag) (by decide) (Nat.le_refl _)
    (fun rest _ => hTag rest) ((h .tags).move (hMid.trans hRest)) hEnds).bind ?_
  rintro _ last tags hLast ⟨rfl, hEnds⟩
  have hAll := hLast.trans (hMid.trans hRest)
  refine (tracks_expect ((h .blanks).move hAll) hEnds).bind ?_
  rintro _ _ close _ ⟨rfl, hClose⟩
  exact tracks_pure ⟨rfl, rfl, Nat.lt_of_lt_of_le hClose hAll.length_le⟩

/-- The reading looks for the bracket without passing white space, and the cursor passes it. -/
theorem tracks_container {start : List Char} (origin : Origin)
    (hUnion : ∀ rest : List Char, rest.length < text.length →
      TracksAt input rest .union (union names) (readUnion names))
    (h : Ready input text .blanks room calls) (hShort : text.length < start.length)
    (hWhole : text.length < whole.length) :
    Tracks input (do
      if ← peek '[' room calls then
        return .generic origin (← arguments (union names room) room calls)
      else return .generic origin []) text (Neared start) (if (TypeExpr.eat '[' text).isSome then do
        let args ← readArgs names text
        return args.lift (.generic origin) (Nat.le_of_lt hWhole)
      else return (⟨.generic origin [], text, hWhole⟩ : Parsed TypeExpr whole)) := by
  have hTrim := trimStart_suffix text
  refine .after (runs_peek '[' h) hTrim ?_
  by_cases hNext : (trimStart text).head? = some '['
  · have hSome := eat_isSome_iff.mpr (List.head?_eq_some_iff.mp hNext)
    rw [if_pos (decide_eq_true hNext), if_pos hSome]
    refine (tracks_arguments (fun rest hLess => hUnion rest
      (Nat.lt_of_lt_of_le hLess hTrim.length_le)) (h.move hTrim) (trimStart_trimStart _)).bind ?_
    intro _ _ args _ hReached
    exact tracks_pure (hReached.lift (generic origin)
      (Nat.le_of_lt (Nat.lt_of_le_of_lt hTrim.length_le hShort)) _).neared
  · have hNone := fun hSome => hNext (List.head?_eq_some_iff.mpr (eat_isSome_iff.mp hSome))
    rw [if_neg (by rwa [decide_eq_true_eq]), if_neg hNone]
    exact tracks_pure ⟨rfl, trimStart_trimStart _, Nat.lt_of_le_of_lt hTrim.length_le hShort⟩

/-- Three dots are three bytes, so the cursor may move past them in one step. -/
theorem tracks_ellipsis {rest : List Char}
    (h : Within input ('.' :: '.' :: '.' :: rest) room calls)
    (hDots : trimStart text' = '.' :: '.' :: '.' :: rest) :
    Tracks input (do
      let start ← position
      moveTo calls (start + 3)
      return .ellipsis) ('.' :: '.' :: '.' :: rest) (Neared ('.' :: '.' :: '.' :: rest))
      (readPrimary names text') := by
  have hRest := List.suffix_append ['.', '.', '.'] rest
  have hDotted : ['.', '.', '.'] ++ rest <:+ input.toList := h.suffix
  have hBytes : byteCount ['.', '.', '.'] = 3 := by decide
  have hOffset : offset input rest = offset input ('.' :: '.' :: '.' :: rest) + 3 := by
    rw [offset_append hDotted, hBytes]
    rfl
  rw [readPrimary]
  split
  · next hStart =>
    cases hDots.symm.trans hStart
    refine .look runs_position ?_
    rw [← hOffset]
    exact .after (runs_moveTo (h.move hRest)) hRest
      (tracks_pure ⟨rfl, rfl, Nat.lt_of_succ_lt (Nat.lt_of_succ_lt (Nat.lt_succ_self _))⟩)
  · next hStart => cases hDots.symm.trans hStart
  · next hOther _ => exact absurd hDots (hOther rest)

/-- A type in parentheses, once the opening one has been passed. -/
theorem tracks_group {rest : List Char} (h : Within input ('(' :: rest) room calls)
    (hUnion : TracksAt input rest .union (union names) (readUnion names))
    (hParen : trimStart text' = '(' :: rest) :
    Tracks input (do
      let inner ← union names room calls
      expect ')' room calls
      return inner) rest (Neared ('(' :: rest)) (readPrimary names text') := by
  rw [readPrimary]
  split
  · next hStart => cases hParen.symm.trans hStart
  · next hStart =>
    cases hParen.symm.trans hStart
    have hRest := List.suffix_cons '(' rest
    refine (hUnion _ _ _ rfl (h.later hRest (Nat.lt_succ_self _))).bind ?_
    rintro _ mid inner hMid ⟨rfl, hEnds, hShort⟩
    have hClose := Nat.lt_of_lt_of_le hShort (Nat.le_succ _)
    refine (tracks_expect (h.later (hMid.trans hRest) hClose) hEnds).bind ?_
    rintro _ _ close _ ⟨rfl, hLess⟩
    exact tracks_pure ⟨rfl, rfl, Nat.lt_trans hLess hClose⟩
  · next hOther => exact absurd hParen (hOther rest)

/-- A path is read first, and its head decides how to go on. -/
theorem tracks_named {start : List Char} (h : Ready input start .blanks room calls)
    (hUnion : ∀ rest : List Char, rest.length < start.length →
      TracksAt input rest .union (union names) (readUnion names))
    (hStart : trimStart text' = start) (hDots : ∀ rest, start ≠ '.' :: '.' :: '.' :: rest)
    (hParen : ∀ rest, start ≠ '(' :: rest) :
    Tracks input (named names (union names room) room calls) start (Neared start)
      (readPrimary names text') := by
  subst hStart
  rw [readPrimary]
  split
  -- The word comes last in the reading, and its start leaves neither of the cases before it.
  · next hStart => exact absurd hStart (hDots _)
  · next hStart => exact absurd hStart (hParen _)
  · refine .look runs_position ((tracks_name h rfl).bind ?_)
    rintro _ _ path hPath ⟨rfl, rfl, hShort⟩
    have hReady (procedure : Procedure) : Ready input path.rest procedure room calls :=
      h.within.later hPath hShort
    have hInner (rest : List Char) (hLess : rest.length < path.rest.length) :=
      hUnion rest (Nat.lt_trans hLess hShort)
    have hArgs := tracks_arguments hInner (hReady .blanks) rfl
    have hLonger := Nat.le_of_lt hShort
    dsimp only
    generalize headOf (unqualified path.value) (isAbstractBase path.value) = head
    cases head with
    | literal =>
        refine (tracks_literal hReady _).imp ?_
        exact fun _ _ _ hReached => hReached.neared.whole hLonger
    | tagged =>
        refine (tracks_tagged hInner hReady _).imp ?_
        exact fun _ _ _ hReached => hReached.neared.whole hLonger
    | optional =>
        refine hArgs.bind ?_
        rintro _ _ args hRest ⟨rfl, rfl, hLess⟩
        rcases hValue : args.value with _ | ⟨inner, _ | ⟨second, others⟩⟩
        · exact tracks_fail ((hReady .blanks).move hRest).suffix
        · exact tracks_pure ⟨rfl, rfl, Nat.lt_trans hLess hShort⟩
        · exact tracks_fail ((hReady .blanks).move hRest).suffix
    | union =>
        refine hArgs.bind ?_
        intro _ _ args _ hReached
        exact tracks_pure (hReached.lift TypeExpr.union hLonger _).neared
    | scalar type => exact tracks_pure ⟨rfl, rfl, hShort⟩
    | container origin => exact tracks_container origin hInner (hReady .blanks) hShort _
    | other =>
        dsimp only
        cases resolve names path.value with
        | some type => exact tracks_pure ⟨rfl, rfl, hShort⟩
        | none => exact tracks_fail_at h.within

theorem isPrefixOf_dots_iff {start : List Char} :
    ['.', '.', '.'].isPrefixOf start = true ↔ ∃ rest, start = '.' :: '.' :: '.' :: rest :=
  List.isPrefixOf_iff_prefix.trans (exists_congr fun _ => eq_comm)

/-- What a type without bars begins with: dots, a parenthesis or a name. -/
theorem tracks_primary
    (hUnion : ∀ rest : List Char, rest.length < text.length →
      TracksAt input rest .union (union names) (readUnion names)) :
    TracksAt input text .primary (primary names) (readPrimary names) := by
  intro text' room calls hSame h
  obtain ⟨room, rfl⟩ := h.exists_room
  have hBlanks : Ready input text .blanks room _ := h.inside (by decide)
  have hTrim := trimStart_suffix text
  have hStart := hBlanks.move hTrim
  refine .look (runs_enter h) (.after (runs_skipBlanks hBlanks) hTrim ?_)
  refine .look runs_position (.look (runs_sliceFrom hStart.suffix) ?_)
  -- Dots, a bracket or a word, in the order in which the cursor looks for them.
  by_cases hDots : ∃ rest, trimStart text = '.' :: '.' :: '.' :: rest
  · rw [if_pos (isPrefixOf_dots_iff.mpr hDots)]
    obtain ⟨rest, hDots⟩ := hDots
    rw [hDots] at hStart hTrim ⊢
    exact (tracks_ellipsis hStart.within (hSame.symm.trans hDots)).imp fun _ _ _ hNeared =>
      hNeared.whole hTrim.length_le
  · rw [if_neg fun hPrefix => hDots (isPrefixOf_dots_iff.mp hPrefix)]
    by_cases hParen : ∃ rest, trimStart text = '(' :: rest
    · obtain ⟨rest, hParen⟩ := hParen
      have hEat := runs_eat_of_next hStart ((trimStart_trimStart text).trans hParen)
      rw [hParen] at hStart hTrim hEat ⊢
      refine .after hEat (List.suffix_cons _ _) ?_
      exact (tracks_group hStart.within (hUnion rest hTrim.length_le)
        (hSame.symm.trans hParen)).imp fun _ _ _ hNeared => hNeared.whole hTrim.length_le
    · rw [not_exists] at hDots hParen
      have hThere := trimStart_trimStart text
      refine .after (runs_eat_of_not_next hStart (by rwa [hThere])) (trimStart_suffix _) ?_
      rw [hThere]
      refine (tracks_named hStart (fun rest hLess => hUnion rest
        (Nat.lt_of_lt_of_le hLess hTrim.length_le)) hSame.symm hDots hParen).imp ?_
      exact fun _ _ _ hNeared => hNeared.whole hTrim.length_le

/-- A union is a type without bars and more of them behind bars. -/
theorem tracks_union
    (hPrimary : ∀ rest : List Char, rest.length ≤ text.length →
      TracksAt input rest .primary (primary names) (readPrimary names)) :
    TracksAt input text .union (union names) (readUnion names) := by
  intro text' room calls hSame h
  obtain ⟨room, rfl⟩ := h.exists_room
  refine .look (runs_enter h) ?_
  rw [readUnion]
  refine (hPrimary text (Nat.le_refl _) _ _ _ hSame (h.inside (by decide))).bind ?_
  rintro _ mid first hMid ⟨rfl, hEnds, hShort⟩
  refine (tracks_more (scansEach_readArms names) (by decide) (Nat.le_refl _)
    (fun rest hLess => hPrimary rest (Nat.le_of_lt (Nat.lt_trans hLess hShort)))
    (h.entered.later hMid hShort) hEnds).bind ?_
  rintro _ last more hLast ⟨rfl, hEnds⟩
  exact tracks_pure ⟨rfl, hEnds, Nat.lt_of_le_of_lt hLast.length_le hShort⟩

/-- Both readers of types, by induction over the length of what is left: a type without bars is
read from types that are shorter, and a union from one of the same length at most. -/
theorem tracks_type (input : String) (names : Names) (text : List Char) :
    TracksAt input text .union (union names) (readUnion names) := by
  induction hLength : text.length using Nat.strongRecOn generalizing text with
  | ind n ih =>
      subst hLength
      exact tracks_union fun rest hRest => tracks_primary fun mid hMid =>
        ih _ (Nat.lt_of_lt_of_le hMid hRest) mid rfl

/-- There is room for the four ranks at each place of the input, so the reader has enough of it, and
what is left at the end is reported by both. -/
theorem tracks_whole (names : Names) (hRoom : 4 * (input.length + 1) ≤ room) :
    Tracks input (Cursor.whole names room) input.toList (fun type _ type' => type = type')
      (readWhole names input.toList) := by
  -- Nothing has been called yet, so the bound on the room is all that is asked for.
  have hReady : Ready input input.toList .union room [] := by
    refine ⟨List.suffix_refl _, List.pairwise_singleton _ _, ?_⟩
    rw [String.length_toList, Procedure.rank]
    omega
  rw [readWhole]
  refine (tracks_type input names _ _ _ _ rfl hReady).bind ?_
  rintro _ mid p hMid ⟨rfl, hEnds, _⟩
  have hBlanks : Ready input mid .blanks room [] := (hReady.of_rank_le (by decide)).move hMid
  have hTrim := trimStart_suffix mid
  have hEnd := (hTrim.trans hMid).trans hReady.suffix
  refine .after (runs_skipBlanks hBlanks) hTrim (.look (runs_isAtEnd hEnd) ?_)
  rw [← hEnds]
  cases hRest : trimStart mid with
  | nil => exact tracks_pure rfl
  | cons c rest => exact tracks_fail (hRest ▸ hEnd)

end

/-! The whole reader -/

/-- Inside a call of the same part, and inside a type without bars if it is one with bars, a call
begins at a later position. -/
def Call.Advances (inner outer : Call) : Prop :=
  inner.procedure = outer.procedure ∨ inner.procedure = .union ∧ outer.procedure = .primary →
    outer.position < inner.position

/-- The ranks are an aid of the proof. Without them, an inner call begins later or is another part
at the same place. -/
theorem Call.Below.advances {inner outer : Call} (h : inner.Below outer) :
    inner.Advances outer := by
  intro hPart
  rcases h with hLater | ⟨-, hRank⟩
  · exact hLater
  · rcases hPart with hSame | ⟨hInner, hOuter⟩
    · exact absurd (hSame ▸ hRank) (Nat.lt_irrefl _)
    · rw [hInner, hOuter] at hRank
      exact absurd hRank (by decide)

theorem Sound.advances {input : String} {moment : Moment} (h : Sound input moment) :
    IsBorder input moment.position ∧ moment.calls.Pairwise Call.Advances :=
  ⟨h.border, h.nested.imp Call.Below.advances⟩

/-- With room for four calls inside one another at each place of the text, and with any more room
than that, the cursor comes to an end. It ends with the type or the fault that the text is read
as, so no slice fails and no call goes without room. All the way the cursor is on a border between
characters or at the end, each round of a loop begins behind the one before, and so does a type
with bars behind the type without bars that it is a part of. -/
theorem reading_halts_within_input (names : Names) (input : String) (room : Nat)
    (hRoom : 4 * (input.length + 1) ≤ room) :
    (run names room input).1 = (parse names input).mapError .fault ∧
      (∀ moment ∈ (run names room input).2,
        IsBorder input moment.position ∧ moment.calls.Pairwise Call.Advances) ∧
      ∀ error, parse names input = .error error →
        error.input = input ∧ IsBorder input error.position := by
  have hTracks := tracks_whole names hRoom
  rw [run, parse]
  generalize readWhole names input.toList = reading at hTracks ⊢
  rw [← offset_input input]
  cases hTracks with
  | @ok type rest type' hRest hRuns hSame =>
      obtain ⟨moments, hSound, hRun⟩ := hRuns
      rw [hRun []]
      subst hSame
      refine ⟨rfl, fun moment hm => (hSound moment hm).advances, ?_⟩
      rintro _ ⟨⟩
  | @error failure hRest hRuns =>
      obtain ⟨moments, hSound, hRun⟩ := hRuns
      rw [hRun []]
      refine ⟨rfl, fun moment hm => (hSound moment hm).advances, ?_⟩
      rintro _ ⟨⟩
      exact ⟨rfl, isBorder_offset hRest⟩

/-- A name with a letter of two bytes that nothing declares: the failure is put back to the start of
the name. -/
theorem reading_halts_within_unknown_name :
    4 * ("list[é]".length + 1) ≤ 32 ∧
      (∃ error, (run noNames 32 "list[é]").1 = .error (.fault error) ∧
        error.input = "list[é]" ∧ IsBorder "list[é]" error.position) ∧
      (run noNames 32 "list[é]").2.getLast?.map Moment.position = some 5 ∧
      ∀ moment ∈ (run noNames 32 "list[é]").2,
        IsBorder "list[é]" moment.position ∧ moment.calls.Pairwise Call.Advances := by
  obtain ⟨hRun, hMoments, hErrors⟩ := reading_halts_within_input noNames "list[é]" 32 (by decide)
  refine ⟨by decide, ?_, by decide +kernel, hMoments⟩
  have hFails : (run noNames 32 "list[é]").1.isOk = false := by decide +kernel
  cases hParse : parse noNames "list[é]" with
  | ok type =>
      rw [hRun, hParse] at hFails
      cases hFails
  | error error => exact ⟨error, by rw [hRun, hParse]; rfl, hErrors error hParse⟩

end ToolSchema.TypeExpr.Cursor
