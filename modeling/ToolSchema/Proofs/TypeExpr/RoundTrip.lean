import ToolSchema.Proofs.TypeExpr.Display

/-! The text of a type is read as the type. Names may be written as anything
that is read as what they stand for, such as a name in parentheses. -/
namespace ToolSchema.TypeExpr

open Text (isBlank trimStart)

/-! Names -/

/-- A type that is written by its name. -/
def isNamed : TypeExpr → Bool
  | .alias _ _ => true
  | .classRef _ => true
  | _ => false

theorem not_isNamed_of_headOf {word : String} {abstractBase : Bool} {t : TypeExpr}
    (h : headOf word abstractBase = .scalar t) : t.isNamed = false := by
  unfold headOf at h
  split at h <;> try cases h <;> rfl
  split at h <;> cases h

/-- A named type comes from a lookup. -/
theorem resolve_of_isNamed {names : Names} {path : String} {after : List Char} {t : TypeExpr}
    {rest : List Char} (hNamed : t.isNamed = true) (h : WordReads names path after t rest) :
    headOf (unqualified path) (isAbstractBase path) = .other ∧ resolve names path = some t ∧
      rest = after := by
  rw [WordReads] at h
  split at h
  · obtain ⟨_, _, _, _, rfl⟩ := h
    cases hNamed
  · obtain ⟨_, _, _, _, _, _, _, _, _, _, rfl, _⟩ := h
    cases hNamed
  · obtain ⟨_, _, rfl⟩ := h
    cases hNamed
  · obtain ⟨_, _, rfl⟩ := h
    cases hNamed
  · next hHead =>
    obtain ⟨rfl, _⟩ := h
    rw [not_isNamed_of_headOf hHead] at hNamed
    cases hNamed
  · rcases h with ⟨_, _, _, rfl⟩ | ⟨_, rfl, _⟩ <;> cases hNamed
  · next hHead => exact ⟨hHead, h⟩

/-- A union that is read as a named type has no second arm. -/
theorem readPrimary_of_isNamed {names : Names} {text : List Char} {t : TypeExpr}
    {rest : List Char} (hNamed : t.isNamed = true) (h : Reads (readUnion names text) t rest) :
    Reads (readPrimary names text) t rest ∧ ∀ after, trimStart rest ≠ '|' :: after := by
  obtain ⟨first, mid, hFirst, more, close, hMore, rfl, rfl⟩ := readUnion_iff.mp h
  cases hMore with
  | done hBar => exact ⟨hFirst, hBar⟩
  | more _ _ _ => cases hNamed

theorem readUnion_of_readPrimary {names : Names} {text : List Char} {t : TypeExpr}
    {rest : List Char} (h : Reads (readPrimary names text) t rest)
    (hBar : ∀ after, trimStart rest ≠ '|' :: after) : Reads (readUnion names text) t rest :=
  readUnion_iff.mpr ⟨t, rest, h, [], rest, .done hBar, rfl, rfl⟩

/-- A name begins with one of its characters other than the dot. -/
theorem exists_cons_of_readName {text : List Char} {name : String} {rest : List Char}
    (h : Reads (readName text) name rest) :
    ∃ c more, trimStart text = c :: more ∧ isNameChar c = true ∧ c ≠ '.' := by
  obtain ⟨hName, -, -⟩ := readName_iff.mp h
  cases hStart : trimStart text with
  | nil =>
      rw [hStart] at hName
      exact absurd (.inl rfl) hName
  | cons c more =>
      rw [hStart, List.takeWhile_cons] at hName
      split at hName
      · next hNameChar =>
        exact ⟨c, more, rfl, hNameChar, fun hDot => hName (.inr (.inl (congrArg some hDot)))⟩
      · exact absurd (.inl rfl) hName

/-- A name is read in the same way in front of more text that does not go on with it. -/
theorem readName_append {text : List Char} {name : String} {rest : List Char}
    (h : Reads (readName text) name rest) {more : List Char}
    (hMore : rest ≠ [] ∨ Stops isNameChar more) :
    Reads (readName (text ++ more)) name (rest ++ more) := by
  obtain ⟨hName, rfl, rfl⟩ := readName_iff.mp h
  have hStart : trimStart text ≠ [] := by
    intro hNothing
    rw [hNothing] at hName
    exact hName (.inl rfl)
  have hAll : ∀ c ∈ (trimStart text).takeWhile isNameChar, isNameChar c = true := fun _ =>
    List.mem_takeWhile_imp
  have hStops : Stops isNameChar ((trimStart text).dropWhile isNameChar ++ more) := by
    intro c after he
    rcases List.append_eq_cons_iff.mp he with ⟨hRest, he⟩ | ⟨_, hRest, _⟩
    · exact hMore.elim (fun h => absurd hRest h) fun h => h c after he
    · exact stops_dropWhile _ _ c _ hRest
  have hSplit : trimStart (text ++ more) = (trimStart text).takeWhile isNameChar ++
      ((trimStart text).dropWhile isNameChar ++ more) := by
    rw [trimStart_append hStart, ← List.append_assoc, List.takeWhile_append_dropWhile]
  obtain ⟨hTake, hDrop⟩ := span_append hAll hStops
  rw [readName_iff, hSplit, hTake, hDrop]
  exact ⟨hName, rfl, rfl⟩

/-- What is read as a named type is read so in front of more text, unless that
would make a name longer. -/
theorem readPrimary_append {names : Names} {text : List Char} {t : TypeExpr} {rest : List Char}
    (hNamed : t.isNamed = true) (h : Reads (readPrimary names text) t rest) {more : List Char}
    (hMore : rest ≠ [] ∨ Stops isNameChar more) :
    Reads (readPrimary names (text ++ more)) t (rest ++ more) := by
  induction hLength : text.length using Nat.strongRecOn generalizing text rest with
  | ind n ih =>
      subst hLength
      by_cases hDots : ∃ after, trimStart text = '.' :: '.' :: '.' :: after
      · obtain ⟨after, hDots⟩ := hDots
        obtain ⟨rfl, _⟩ := (readPrimary_ellipsis_iff hDots t rest).mp h
        cases hNamed
      · by_cases hParen : ∃ inside, trimStart text = '(' :: inside
        · obtain ⟨inside, hParen⟩ := hParen
          obtain ⟨_, mid, hUnion, _, hClose, rfl, rfl⟩ :=
            (readPrimary_paren_iff hParen t rest).mp h
          obtain ⟨hPrimary, _⟩ := readPrimary_of_isNamed hNamed hUnion
          have hMid : trimStart mid ≠ [] := by
            rw [hClose]
            exact nofun
          have hShorter : inside.length < text.length := by
            have hTrim := Text.trimStart_length_le text
            rw [hParen, List.length_cons] at hTrim
            exact hTrim
          have hNotNil : mid ≠ [] := by
            rintro rfl
            exact hMid rfl
          have hInner := ih _ hShorter hPrimary (.inl hNotNil) rfl
          have hCloseMore : trimStart (mid ++ more) = ')' :: (rest ++ more) := by
            rw [trimStart_append hMid, hClose, List.cons_append]
          have hParenMore : trimStart (text ++ more) = '(' :: (inside ++ more) := by
            rw [trimStart_append (by rw [hParen]; exact nofun), hParen, List.cons_append]
          refine (readPrimary_paren_iff hParenMore t _).mpr
            ⟨t, _, readUnion_of_readPrimary hInner ?_, _, hCloseMore, rfl, rfl⟩
          rw [hCloseMore]
          exact nofun
        · rw [not_exists] at hDots hParen
          obtain ⟨path, after, hPath, hWord⟩ := (readPrimary_word_iff hDots hParen t rest).mp h
          obtain ⟨hHead, hResolve, rfl⟩ := resolve_of_isNamed hNamed hWord
          obtain ⟨c, chars, hStart, hNameChar, hDot⟩ := exists_cons_of_readName hPath
          rw [trimStart_trimStart] at hStart
          have hTrim : trimStart (text ++ more) = trimStart text ++ more :=
            trimStart_append (by rw [hStart]; exact nofun) more
          rw [readPrimary_word_iff, hTrim]
          · refine ⟨path, rest ++ more, readName_append hPath hMore, ?_⟩
            rw [WordReads, hHead]
            exact ⟨hResolve, rfl⟩
          · rw [hTrim, hStart]
            exact fun _ he => hDot (List.cons.inj he).1
          · rw [hTrim, hStart]
            exact fun _ he => hParen chars (hStart.trans (by rw [(List.cons.inj he).1]))

/-! Types in front of more text -/

/-- In front of what may stand behind a type, the text of the type is read as the
type, and white space at most is left of it. -/
def ReadsBack (names : Names) (t : TypeExpr) : Prop :=
  ∀ rest, Ends rest → ∃ unread, Reads (readUnion names (t.text.toList ++ rest)) t unread ∧
    trimStart unread = trimStart rest

/-- The same for an arm of a union. -/
def ArmReadsBack (names : Names) (t : TypeExpr) : Prop :=
  ∀ rest, ArmEnds rest → ∃ unread, Reads (readPrimary names (t.text.toList ++ rest)) t unread ∧
    trimStart unread = trimStart rest

theorem ArmReadsBack.readsBack {names : Names} {t : TypeExpr} (h : ArmReadsBack names t) :
    ReadsBack names t := by
  intro rest hRest
  obtain ⟨unread, hRead, hUnread⟩ := h rest (.inl hRest)
  exact ⟨unread, readUnion_of_readPrimary hRead (hUnread ▸ hRest.no_bar), hUnread⟩

/-- A name that reads back alone does so in front of more text. -/
theorem armReadsBack_of_parse {names : Names} {t : TypeExpr} (hNamed : t.isNamed = true)
    (h : parse names t.text = .ok t) : ArmReadsBack names t := by
  intro rest hRest
  obtain ⟨unread, hUnion, hBlank⟩ := parse_eq_ok_iff.mp h
  have hPrimary := (readPrimary_of_isNamed hNamed hUnion).1
  exact ⟨unread ++ rest, readPrimary_append hNamed hPrimary (.inr hRest.stops),
    trimStart_append_blank hBlank rest⟩

theorem armReadsBack_scalar {names : Names} {t : TypeExpr} (hWord : isWord t.text = true)
    (hHead : headOf (unqualified t.text) (isAbstractBase t.text) = .scalar t) :
    ArmReadsBack names t := by
  intro rest hRest
  refine ⟨rest, readPrimary_word hWord hRest.stops ?_, rfl⟩
  rw [WordReads, hHead]
  exact ⟨rfl, rfl⟩

theorem armReadsBack_ellipsis (names : Names) : ArmReadsBack names .ellipsis := by
  intro rest _
  have hDots : trimStart (TypeExpr.ellipsis.text.toList ++ rest) = '.' :: '.' :: '.' :: rest :=
    trimStart_cons (by decide) _
  exact ⟨rest, (readPrimary_ellipsis_iff hDots _ _).mpr ⟨rfl, rfl⟩, rfl⟩

/-- A word that is not built in is read as what it stands for. -/
theorem parse_word {names : Names} {word : String} {t : TypeExpr} (hWord : isWord word = true)
    (hHead : headOf (unqualified word) (isAbstractBase word) = .other)
    (h : resolve names word = some t) : parse names word = .ok t := by
  have hRead : Reads (readPrimary names (word.toList ++ [])) t [] := by
    refine readPrimary_word hWord (ArmEnds.stops (.inl .nothing)) ?_
    rw [WordReads, hHead]
    exact ⟨h, rfl⟩
  rw [List.append_nil] at hRead
  have hUnion := readUnion_of_readPrimary hRead fun _ he => List.cons_ne_nil _ _ he.symm
  exact parse_eq_ok_iff.mpr ⟨[], hUnion, rfl⟩

/-! Lists in front of more text -/

/-- Elements that are read back one by one are read back as a list. -/
theorem separated_of_texts {α : Type} {mark : Char} (lead : List Char)
    {element : List Char → α → List Char → Prop} {close : List Char}
    {textOf : α → List Char} (hLead : trimStart lead = []) (hMark : isBlank mark = false)
    (hClose : ∀ after, trimStart close ≠ mark :: after) {values : List α}
    (hElement : ∀ value ∈ values, ∀ rest,
      (rest = close ∨ ∃ after, rest = lead ++ mark :: ' ' :: after) →
        ∃ unread, element (' ' :: (textOf value ++ rest)) value unread ∧
          trimStart unread = trimStart rest)
    {text : List Char} (hText : trimStart text =
      trimStart (values.flatMap (fun value => (lead ++ [mark, ' ']) ++ textOf value) ++ close)) :
    ∃ unread, Separated mark element text values unread ∧ trimStart unread = trimStart close := by
  induction values generalizing text with
  | nil => exact ⟨text, .done (hText ▸ hClose), hText⟩
  | cons value values ih =>
      rw [List.forall_mem_cons] at hElement
      have hTail :
          values.flatMap (fun value => (lead ++ [mark, ' ']) ++ textOf value) ++ close = close ∨
          ∃ after, values.flatMap (fun value => (lead ++ [mark, ' ']) ++ textOf value) ++ close =
            lead ++ mark :: ' ' :: after := by
        cases values with
        | nil => exact .inl rfl
        | cons next values => simp [List.flatMap_cons]
      have hStart : trimStart text = mark :: ' ' :: (textOf value ++
          (values.flatMap (fun value => (lead ++ [mark, ' ']) ++ textOf value) ++ close)) := by
        rw [hText, List.flatMap_cons]
        simp only [List.append_assoc, List.cons_append, List.nil_append]
        rw [trimStart_append_blank hLead, trimStart_cons hMark]
      obtain ⟨mid, hFirst, hMid⟩ := hElement.1 _ hTail
      obtain ⟨unread, hMore, hUnread⟩ := ih hElement.2 hMid
      exact ⟨unread, .more hStart hFirst hMore, hUnread⟩

theorem trimStart_bracket (rest : List Char) : trimStart (']' :: rest) = ']' :: rest :=
  trimStart_cons (by decide) rest

/-- Elements between commas, up to a bracket. -/
theorem separated_of_commas {α : Type} (element : List Char → α → List Char → Prop)
    {textOf : α → List Char} {values : List α} {rest : List Char}
    (hElement : ∀ value ∈ values, ∀ tail, Ends tail →
      ∃ unread, element (' ' :: (textOf value ++ tail)) value unread ∧
        trimStart unread = trimStart tail)
    {text : List Char} (hText : trimStart text =
      trimStart (values.flatMap (fun value => ", ".toList ++ textOf value) ++ ']' :: rest)) :
    ∃ unread, Separated ',' element text values unread ∧ trimStart unread = ']' :: rest := by
  rw [← trimStart_bracket]
  refine separated_of_texts [] rfl (by decide) ?_ (fun value hm tail hTail => ?_) hText
  · rw [trimStart_bracket]
    exact nofun
  · refine hElement value hm tail ?_
    rcases hTail with rfl | ⟨after, rfl⟩
    · exact .bracket rest
    · exact .comma _

/-- Behind each element a comma or the closing bracket comes next. -/
theorem ends_commas {α : Type} (textOf : α → List Char) (values : List α) (rest : List Char) :
    Ends (values.flatMap (fun value => ", ".toList ++ textOf value) ++ ']' :: rest) := by
  cases values with
  | nil => exact .bracket rest
  | cons value values => exact .comma _

/-- In front of what may stand behind a constant, the text of the constant is read
as the constant. -/
def ConstantReadsBack (value : Constant) : Prop :=
  ∀ text rest, Ends rest → trimStart text = trimStart (value.text.toList ++ rest) →
    Reads (readConstant text) value rest

/-- Constants that read back one by one do so as a list. -/
theorem readConstants_texts {values : List Constant} (hValues : values ≠ [])
    (h : ∀ value ∈ values, ConstantReadsBack value) (rest : List Char) :
    Reads (readConstants ((", ".intercalate (values.map Constant.text)).toList ++ ']' :: rest))
      values rest := by
  obtain ⟨first, more, rfl⟩ := List.exists_cons_of_ne_nil hValues
  rw [List.forall_mem_cons] at h
  rw [toList_intercalate_map, List.append_assoc]
  have hFirst := h.1 _ _ (ends_commas (fun value => (Constant.text value).toList) more rest) rfl
  obtain ⟨unread, hMore, hUnread⟩ := separated_of_commas
    (fun text value rest => Reads (readConstant text) value rest)
    (fun value hm tail hTail => ⟨tail, h.2 value hm _ _ hTail (trimStart_space _), rfl⟩) rfl
  exact readConstants_iff.mpr ⟨first, _, hFirst, more, unread, hMore, rest, hUnread, rfl, rfl⟩

theorem readUnion_space {names : Names} {t : TypeExpr} (h : ReadsBack names t) {tail : List Char}
    (hTail : Ends tail) : ∃ unread,
      Reads (readUnion names (' ' :: (t.text.toList ++ tail))) t unread ∧
        trimStart unread = trimStart tail := by
  obtain ⟨unread, hRead, hUnread⟩ := h tail hTail
  exact ⟨unread, (readUnion_congr (trimStart_space _) _ _).mpr hRead, hUnread⟩

/-- Arguments that read back one by one do so as a list. -/
theorem readArgs_texts {names : Names} {args : List TypeExpr} (hArgs : args ≠ [])
    (h : ∀ arg ∈ args, ReadsBack names arg) (rest : List Char) :
    Reads (readArgs names ('[' :: ((", ".intercalate (args.map text)).toList ++ ']' :: rest)))
      args rest := by
  obtain ⟨first, more, rfl⟩ := List.exists_cons_of_ne_nil hArgs
  rw [List.forall_mem_cons] at h
  rw [toList_intercalate_map, List.append_assoc]
  obtain ⟨mid, hFirst, hMid⟩ := h.1 _ (ends_commas (fun arg => (text arg).toList) more rest)
  obtain ⟨unread, hMore, hUnread⟩ := separated_of_commas
    (fun text t rest => Reads (readUnion names text) t rest)
    (fun arg hm _ hTail => readUnion_space (h.2 arg hm) hTail) hMid
  exact readArgs_iff.mpr ⟨_, trimStart_cons (by decide) _, first, mid, hFirst, more, unread, hMore,
    rest, hUnread, rfl, rfl⟩

/-- Further arms of a union, up to the end of the union. -/
theorem readArms_texts {names : Names} {arms : List TypeExpr}
    (h : ∀ arm ∈ arms, ArmReadsBack names arm) {rest : List Char} (hRest : Ends rest)
    {text : List Char} (hText : trimStart text =
      trimStart (arms.flatMap (fun arm => " | ".toList ++ arm.text.toList) ++ rest)) :
    ∃ unread, Separated '|' (fun text t rest => Reads (readPrimary names text) t rest) text arms
      unread ∧ trimStart unread = trimStart rest := by
  refine separated_of_texts [' '] (by decide) (by decide) hRest.no_bar
    (fun arm hm tail hTail => ?_) hText
  have hEnds : ArmEnds tail := by
    rcases hTail with rfl | ⟨after, rfl⟩
    · exact .inl hRest
    · exact .inr ⟨_, rfl⟩
  obtain ⟨unread, hRead, hUnread⟩ := h arm hm tail hEnds
  exact ⟨unread, (readPrimary_congr (trimStart_space _) _ _).mpr hRead, hUnread⟩

/-! Types and their texts -/

/-- Arms that read back make a union that does. -/
theorem readsBack_union {names : Names} {arms : List TypeExpr} (hSeveral : 2 ≤ arms.length)
    (h : ∀ arm ∈ arms, ArmReadsBack names arm) : ReadsBack names (.union arms) := by
  match arms, hSeveral with
  | first :: second :: more, _ =>
    rw [List.forall_mem_cons] at h
    intro rest hRest
    rw [text, textAll_eq_map, toList_intercalate_map, List.append_assoc]
    obtain ⟨mid, hFirst, hMid⟩ := h.1 _ (.inr ⟨_, rfl⟩)
    obtain ⟨unread, hMore, hUnread⟩ := readArms_texts h.2 hRest hMid
    exact ⟨unread, readUnion_iff.mpr
      ⟨first, mid, hFirst, second :: more, unread, hMore, rfl, rfl⟩, hUnread⟩

theorem stops_bracket (inside : List Char) : Stops isNameChar ('[' :: inside) := by
  intro c after he
  cases he
  decide

/-- A literal reads back if its constants do. -/
theorem armReadsBack_literal {names : Names} {values : List Constant} (hValues : values ≠ [])
    (h : ∀ value ∈ values, ConstantReadsBack value) : ArmReadsBack names (.literal values) := by
  intro rest _
  have hText : (TypeExpr.literal values).text.toList ++ rest = "Literal".toList ++
      '[' :: ((", ".intercalate (values.map Constant.text)).toList ++ ']' :: rest) := by
    rw [text, String.toList_append, String.toList_append, List.append_assoc, List.append_assoc]
    rfl
  rw [hText]
  refine ⟨rest, readPrimary_word (by decide) (stops_bracket _) ?_, rfl⟩
  exact ⟨_, trimStart_cons (by decide) _, values, readConstants_texts hValues h rest, rfl⟩

/-- A type reads back with its tags if these need no escapes. -/
theorem armReadsBack_tagged {names : Names} {inner : TypeExpr} {tags : List String}
    (h : ReadsBack names inner)
    (hTags : ∀ tag ∈ tags, '\'' ∉ tag.toList ∧ '\\' ∉ tag.toList) :
    ArmReadsBack names (.tagged inner tags) := by
  intro rest _
  have hText : (TypeExpr.tagged inner tags).text.toList ++ rest = "Annotated".toList ++
      '[' :: (inner.text.toList ++
        (tags.flatMap (fun tag => ", ".toList ++ ('\'' :: (tag.toList ++ ['\'']))) ++
          ']' :: rest)) := by
    rw [text]
    simp only [String.toList_append, String.toList_join, List.flatMap_map, List.append_assoc]
    rfl
  rw [hText]
  obtain ⟨mid, hInner, hMid⟩ :=
    h _ (ends_commas (fun tag => '\'' :: (tag.toList ++ ['\''])) tags rest)
  obtain ⟨unread, hMore, hUnread⟩ := separated_of_commas
    (fun text tag rest => Reads (readTag text) tag rest) (fun tag hm tail _ => by
      refine ⟨tail, readTag_text (hTags tag hm).1 (hTags tag hm).2 ?_, rfl⟩
      rw [trimStart_space, List.cons_append, List.append_assoc, trimStart_cons (by decide)]
      rfl) hMid
  refine ⟨rest, readPrimary_word (by decide) (stops_bracket _) ?_, rfl⟩
  exact ⟨_, trimStart_cons (by decide) _, inner, mid, hInner, tags, unread, hMore, rest, hUnread,
    rfl, rfl⟩

theorem isWord_name (origin : Origin) : isWord origin.name = true := by
  cases origin <;> decide

/-- Every container is found by its name, except for the one whose name means
the concrete set. -/
theorem headOf_name {origin : Origin} (h : origin ≠ .abstractSet) :
    headOf (unqualified origin.name) (isAbstractBase origin.name) = .container origin := by
  cases origin with
  | abstractSet => exact absurd rfl h
  | _ => rfl

/-- The same for a container of such arguments. The abstract set is written with the word of the
set, so it is left out. -/
theorem armReadsBack_generic {names : Names} {origin : Origin} {args : List TypeExpr}
    (hOrigin : origin ≠ .abstractSet) (h : ∀ arg ∈ args, ReadsBack names arg) :
    ArmReadsBack names (.generic origin args) := by
  intro rest hRest
  cases args with
  | nil =>
      refine ⟨rest, readPrimary_word (isWord_name origin) hRest.stops ?_, rfl⟩
      rw [WordReads, headOf_name hOrigin]
      exact .inr ⟨hRest.no_bracket, rfl, rfl⟩
  | cons first more =>
      have hText : (TypeExpr.generic origin (first :: more)).text.toList ++ rest =
          origin.name.toList ++
            '[' :: ((", ".intercalate ((first :: more).map text)).toList ++ ']' :: rest) := by
        rw [text_generic_cons]
        simp only [String.toList_append, List.append_assoc]
        rfl
      rw [hText]
      refine ⟨rest, readPrimary_word (isWord_name origin) (stops_bracket _) ?_, rfl⟩
      rw [WordReads, headOf_name hOrigin]
      exact .inl ⟨⟨_, trimStart_cons (by decide) _⟩, _,
        readArgs_texts (List.cons_ne_nil _ _) h rest, rfl⟩

/-- Types whose text tells them apart from all others. Names may be any text
that is read as what they stand for. -/
inductive Displayable (names : Names) : TypeExpr → Prop
  | any : Displayable names .any
  | null : Displayable names .null
  | int : Displayable names .int
  | float : Displayable names .float
  | str : Displayable names .str
  | bool : Displayable names .bool
  | named {name : String} {target : TypeExpr} (h : parse names name = .ok (.alias name target)) :
      Displayable names (.alias name target)
  | tagged {inner : TypeExpr} {tags : List String} (h : Displayable names inner)
      (hTags : ∀ tag ∈ tags, '\'' ∉ tag.toList ∧ '\\' ∉ tag.toList) :
      Displayable names (.tagged inner tags)
  | literal {values : List Constant} (hValues : values ≠ [])
      (hPlain : ∀ value ∈ values, value.IsPlain) : Displayable names (.literal values)
  | union {arms : List TypeExpr} (hSeveral : 2 ≤ arms.length)
      (hFlat : ∀ arm ∈ arms, ∀ inner, arm ≠ .union inner)
      (hArms : ∀ arm ∈ arms, Displayable names arm) : Displayable names (.union arms)
  | generic {origin : Origin} {args : List TypeExpr} (hOrigin : origin ≠ .abstractSet)
      (hArgs : ∀ arg ∈ args, Displayable names arg) : Displayable names (.generic origin args)
  | ellipsis : Displayable names .ellipsis
  | classRef {ref : ClassRef} (h : parse names ref.name = .ok (.classRef ref)) :
      Displayable names (.classRef ref)

/-- Every type but a union is read back as an arm, and every type on its own. -/
theorem Displayable.readsBack {names : Names} {t : TypeExpr} (h : t.Displayable names) :
    ReadsBack names t ∧ ((∀ arms, t ≠ .union arms) → ArmReadsBack names t) := by
  have hAlone {t : TypeExpr} (h : ArmReadsBack names t) :
      ReadsBack names t ∧ ((∀ arms, t ≠ .union arms) → ArmReadsBack names t) :=
    ⟨h.readsBack, fun _ => h⟩
  induction h with
  | any => exact hAlone (armReadsBack_scalar (by decide) rfl)
  | null => exact hAlone (armReadsBack_scalar (by decide) rfl)
  | int => exact hAlone (armReadsBack_scalar (by decide) rfl)
  | float => exact hAlone (armReadsBack_scalar (by decide) rfl)
  | str => exact hAlone (armReadsBack_scalar (by decide) rfl)
  | bool => exact hAlone (armReadsBack_scalar (by decide) rfl)
  | named h => exact hAlone (armReadsBack_of_parse rfl h)
  | tagged _ hTags ih => exact hAlone (armReadsBack_tagged ih.1 hTags)
  | literal hValues hPlain =>
      exact hAlone (armReadsBack_literal hValues fun value hm _ _ =>
        readConstant_text (hPlain value hm))
  | union hSeveral hFlat _ ih =>
      refine ⟨readsBack_union hSeveral fun arm hm => (ih arm hm).2 (hFlat arm hm), fun hOther => ?_⟩
      exact absurd rfl (hOther _)
  | generic hOrigin _ ih => exact hAlone (armReadsBack_generic hOrigin fun arg hm => (ih arg hm).1)
  | ellipsis => exact hAlone (armReadsBack_ellipsis names)
  | classRef h => exact hAlone (armReadsBack_of_parse rfl h)

/-- Reading undoes writing. -/
theorem parse_text {names : Names} {t : TypeExpr} (h : t.Displayable names) :
    parse names t.text = .ok t := by
  obtain ⟨unread, hRead, hUnread⟩ := h.readsBack.1 [] .nothing
  rw [List.append_nil] at hRead
  exact parse_eq_ok_iff.mpr ⟨unread, hRead, hUnread⟩

/-- A name with a meaning of its own, a quote inside a string, and a container without arguments. -/
theorem parse_text_of_choices :
    parse (fun name => if name = "Age" then some (.alias "Age" .int) else none)
        "tuple[Age | None, Literal['it\\'s', -3, True] | Annotated[Sequence, 'ordered']]" =
      .ok (.generic .tuple [.union [.alias "Age" .int, .null],
        .union [.literal [.str "it's", .int (-3), .bool true],
          .tagged (.generic .sequence []) ["ordered"]]]) := by
  refine @parse_text _ (.generic .tuple [.union [.alias "Age" .int, .null],
    .union [.literal [.str "it's", .int (-3), .bool true],
      .tagged (.generic .sequence []) ["ordered"]]]) ?_
  refine .generic (by decide) fun arg hArg => ?_
  rcases List.mem_pair.mp hArg with rfl | rfl
  · refine .union (by decide) (fun arm hArm => ?_) fun arm hArm => ?_
    · rcases List.mem_pair.mp hArm with rfl | rfl <;> exact nofun
    · rcases List.mem_pair.mp hArm with rfl | rfl
      · exact .named (parse_word (by decide) rfl rfl)
      · exact .null
  · refine .union (by decide) (fun arm hArm => ?_) fun arm hArm => ?_
    · rcases List.mem_pair.mp hArm with rfl | rfl <;> exact nofun
    · rcases List.mem_pair.mp hArm with rfl | rfl
      · refine .literal (List.cons_ne_nil _ _) ?_
        simp [Constant.IsPlain]
      · exact .tagged (.generic (by decide) nofun) (by decide)

end ToolSchema.TypeExpr
