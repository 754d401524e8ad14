import ToolSchema.Proofs.Manifest.Lookup

/-! Names that are missing. Where a reading fails for a name without a meaning, the
scan finds the name in the text. -/
namespace ToolSchema.Manifest

open TypeExpr
open TypeExpr.Grammar
open Except (bind_eq_error_iff)
open Text (trimStart)

section

variable {path : String} {names : Names}

/-- The reading fails because of this name. -/
def Blames {α : Type} (path : String) (reading : Reading α) : Prop :=
  ∃ rest, reading = .error ⟨.unknownName path, rest⟩

/-- A reading that succeeds is not to blame on any name. -/
theorem not_blames_ok {α : Type} (a : α) : ¬ Blames path (.ok a : Reading α) := by
  intro h
  obtain ⟨_, h⟩ := h
  cases h

theorem not_blames_error {α : Type} {failure : Failure} (h : failure.fault ≠ .unknownName path) :
    ¬ Blames path (.error failure : Reading α) := by
  intro hBlames
  obtain ⟨_, hBlames⟩ := hBlames
  cases hBlames
  exact h rfl

/-- A fault arises in the first reading or in what comes behind it. -/
theorem blames_bind {α β : Type} {reading : Reading α} {next : α → Reading β}
    (h : Blames path (reading >>= next)) :
    Blames path reading ∨ ∃ a, reading = .ok a ∧ Blames path (next a) := by
  obtain ⟨rest, h⟩ := h
  rcases bind_eq_error_iff.mp h with h | ⟨a, hRead, h⟩
  · exact .inl ⟨rest, h⟩
  · exact .inr ⟨a, hRead, rest, h⟩

/-- What does not fail because of the name is read first. -/
theorem blames_of_bind {α β : Type} {reading : Reading α} {next : α → Reading β}
    (hReading : ¬ Blames path reading) (h : Blames path (reading >>= next)) :
    ∃ a, reading = .ok a ∧ Blames path (next a) :=
  (blames_bind h).resolve_left hReading

theorem not_blames_map {α β : Type} {reading : Reading α} {f : α → β}
    (hReading : ¬ Blames path reading) : ¬ Blames path (do
      let p ← reading
      return f p) := by
  intro h
  obtain ⟨a, _, h⟩ := blames_of_bind hReading h
  exact not_blames_ok _ h

/-! Tokens never ask for a name -/

/-- Tokens fail in their own ways, one lemma for each of them. -/
theorem not_blames_expect (c : Char) (text : List Char) : ¬ Blames path (expect c text) := by
  rw [expect]
  split
  · exact not_blames_error (by simp)
  · split
    · exact not_blames_ok _
    · exact not_blames_error (by simp)

theorem not_blames_readName (text : List Char) : ¬ Blames path (readName text) := by
  simp only [readName]
  split
  · exact not_blames_error (by simp)
  · exact not_blames_ok _

theorem not_blames_readQuoted (quote : Char) (text : List Char) :
    ¬ Blames path (readQuoted quote text) := by
  fun_induction readQuoted quote text with
  | case1 => exact not_blames_error (by simp)
  | case2 => exact not_blames_error (by simp)
  | case3 c rest ih => exact not_blames_map ih
  | case4 => exact not_blames_ok _
  | case5 c rest _ _ _ ih => exact not_blames_map ih

theorem not_blames_readNumber (first : Char) (text : List Char) :
    ¬ Blames path (readNumber first text) := by
  rw [readNumber]
  dsimp only
  split
  · exact not_blames_ok _
  · exact not_blames_ok _
  · exact not_blames_error (by simp)

theorem not_blames_readConstant (text : List Char) : ¬ Blames path (readConstant text) := by
  rw [readConstant]
  split
  · exact not_blames_error (by simp)
  · split
    · exact not_blames_map (not_blames_readQuoted _ _)
    · split
      · exact not_blames_map (not_blames_readNumber _ _)
      · intro h
        obtain ⟨name, _, h⟩ := blames_of_bind (not_blames_readName _) h
        dsimp only at h
        split at h
        case h_5 =>
          exact not_blames_error (by simp) h
        all_goals exact not_blames_ok _ h

theorem not_blames_readTag (text : List Char) : ¬ Blames path (readTag text) := by
  rw [readTag]
  split
  · exact not_blames_error (by simp)
  · split
    · exact not_blames_map (not_blames_readQuoted _ _)
    · split
      · exact not_blames_map (not_blames_readNumber _ _)
      · exact not_blames_map (not_blames_readName _)

/-- A list of tokens fails as a token of it does. -/
theorem not_blames_readMore {α : Type} {read : (text : List Char) → Reading (Text.Parsed α text)}
    (hRead : ∀ text, ¬ Blames path (read text)) (text : List Char) :
    ¬ Blames path (readMore read text) := by
  induction hLength : text.length using Nat.strongRecOn generalizing text with
  | ind n ih =>
      subst hLength
      rw [readMore]
      split
      · exact not_blames_ok _
      · next after hShort _ =>
        intro h
        obtain ⟨first, _, h⟩ := blames_of_bind (hRead after) h
        exact not_blames_map (ih _ (Nat.lt_trans first.shorter hShort) _ rfl) h

theorem not_blames_readConstants (text : List Char) : ¬ Blames path (readConstants text) := by
  rw [readConstants]
  intro h
  obtain ⟨first, _, h⟩ := blames_of_bind (not_blames_readConstant _) h
  obtain ⟨more, _, h⟩ := blames_of_bind (not_blames_readMore not_blames_readConstant _) h
  exact not_blames_map (not_blames_expect _ _) h

/-! Where a name is asked for -/

/-- Where a reading of types asks for a name, level by level: in which part, and behind what has
been read already. -/
theorem blames_readUnion {text : List Char} (h : Blames path (readUnion names text)) :
    Blames path (readPrimary names text) ∨ ∃ first mid,
      Reads (readPrimary names text) first mid ∧ Blames path (readArms names mid) := by
  rw [readUnion] at h
  rcases blames_bind h with h | ⟨first, hFirst, h⟩
  · exact .inl h
  · rcases blames_bind h with h | ⟨more, _, h⟩
    · exact .inr ⟨_, _, ⟨first, hFirst, rfl, rfl⟩, h⟩
    · exact absurd h (not_blames_ok _)

theorem blames_readArms {text : List Char} (h : Blames path (readArms names text)) :
    ∃ after, trimStart text = '|' :: after ∧ (Blames path (readPrimary names after) ∨
      ∃ first mid, Reads (readPrimary names after) first mid ∧ Blames path (readArms names mid)) := by
  rw [readArms] at h
  split at h
  · exact absurd h (not_blames_ok _)
  · next after hShort hEat =>
    refine ⟨after, eat_eq_some_iff.mp hEat, ?_⟩
    rcases blames_bind h with h | ⟨first, hFirst, h⟩
    · exact .inl h
    · rcases blames_bind h with h | ⟨more, _, h⟩
      · exact .inr ⟨_, _, ⟨first, hFirst, rfl, rfl⟩, h⟩
      · exact absurd h (not_blames_ok _)

theorem blames_readMoreArgs {text : List Char} (h : Blames path (readMoreArgs names text)) :
    ∃ after, trimStart text = ',' :: after ∧ (Blames path (readUnion names after) ∨
      ∃ first mid, Reads (readUnion names after) first mid ∧
        Blames path (readMoreArgs names mid)) := by
  rw [readMoreArgs] at h
  split at h
  · exact absurd h (not_blames_ok _)
  · next after hShort hEat =>
    refine ⟨after, eat_eq_some_iff.mp hEat, ?_⟩
    rcases blames_bind h with h | ⟨first, hFirst, h⟩
    · exact .inl h
    · rcases blames_bind h with h | ⟨more, _, h⟩
      · exact .inr ⟨_, _, ⟨first, hFirst, rfl, rfl⟩, h⟩
      · exact absurd h (not_blames_ok _)

theorem blames_readArgs {text : List Char} (h : Blames path (readArgs names text)) :
    ∃ inside, trimStart text = '[' :: inside ∧ (Blames path (readUnion names inside) ∨
      ∃ first mid, Reads (readUnion names inside) first mid ∧
        Blames path (readMoreArgs names mid)) := by
  rw [readArgs] at h
  obtain ⟨inside, hOpen, h⟩ := blames_of_bind (not_blames_expect _ _) h
  refine ⟨inside, expect_eq_ok_iff.mp hOpen, ?_⟩
  rcases blames_bind h with h | ⟨first, hFirst, h⟩
  · exact .inl h
  · rcases blames_bind h with h | ⟨more, _, h⟩
    · exact .inr ⟨_, _, ⟨first, hFirst, rfl, rfl⟩, h⟩
    · exact absurd h (not_blames_map (not_blames_expect _ _))

/-- The one place where a name is looked up is behind all words of the notation. -/
theorem blames_readPrimary {text : List Char} (h : Blames path (readPrimary names text)) :
    (∃ inside, trimStart text = '(' :: inside ∧ Blames path (readUnion names inside)) ∨
      ∃ other after, Spaced Name text other after ∧
        ((∃ inside, trimStart after = '[' :: inside ∧ Blames path (readUnion names inside)) ∨
          Blames path (readArgs names after) ∨ (other = path ∧ resolve names path = none)) := by
  rw [readPrimary] at h
  split at h
  · exact absurd h (not_blames_ok _)
  · next inside hStart =>
    refine .inl ⟨inside, hStart, ?_⟩
    rcases blames_bind h with h | ⟨inner, _, h⟩
    · exact h
    · exact absurd h (not_blames_map (not_blames_expect _ _))
  · obtain ⟨name, hName, h⟩ := blames_of_bind (not_blames_readName _) h
    refine .inr ⟨name.value, name.rest, ?_, ?_⟩
    · have hReads : Reads (readName (trimStart text)) name.value name.rest :=
        ⟨name, hName, rfl, rfl⟩
      rw [← name_iff, trimStart_trimStart] at hReads
      exact spaced_iff.mpr hReads
    · split at h
      · obtain ⟨bracket, _, h⟩ := blames_of_bind (not_blames_expect _ _) h
        exact absurd h (not_blames_map (not_blames_readConstants _))
      · obtain ⟨inside, hOpen, h⟩ := blames_of_bind (not_blames_expect _ _) h
        rcases blames_bind h with h | ⟨inner, _, h⟩
        · exact .inl ⟨inside, expect_eq_ok_iff.mp hOpen, h⟩
        · obtain ⟨tags, _, h⟩ := blames_of_bind (not_blames_readMore not_blames_readTag _) h
          exact absurd h (not_blames_map (not_blames_expect _ _))
      · rcases blames_bind h with h | ⟨args, _, h⟩
        · exact .inr (.inl h)
        · split at h
          · exact absurd h (not_blames_ok _)
          · exact absurd h (not_blames_error (by simp))
      · rcases blames_bind h with h | ⟨args, _, h⟩
        · exact .inr (.inl h)
        · exact absurd h (not_blames_ok _)
      · exact absurd h (not_blames_ok _)
      · split at h
        · rcases blames_bind h with h | ⟨args, _, h⟩
          · exact .inr (.inl h)
          · exact absurd h (not_blames_ok _)
        · exact absurd h (not_blames_ok _)
      · split at h
        · exact absurd h (not_blames_ok _)
        · next hNone =>
          obtain ⟨_, h⟩ := h
          cases h
          exact .inr (.inr ⟨rfl, hNone⟩)

/-- The name has no meaning, and the scan finds its word in the text. -/
structure Missing (names : Names) (text : List Char) (path : String) : Prop where
  unknown : resolve names path = none
  found : Unbroken text → isIdentifier (unqualified path) = true → unqualified path ∈ words text

/-- What is missing in the rest of a text is missing in the text. -/
theorem Missing.of_finds {text rest : List Char} (hFinds : ∃ found, Finds text found rest)
    (h : Missing names rest path) : Missing names text path where
  unknown := h.unknown
  found hLines hIdentifier := by
    obtain ⟨found, hFinds⟩ := hFinds
    rw [hFinds.words hLines]
    exact List.mem_append_right _ (h.found (hLines.of_suffix hFinds.suffix) hIdentifier)

theorem exists_finds_of_choice {text : List Char} {t : TypeExpr} {rest : List Char}
    (h : Choice tokens names text t rest) : ∃ found, Finds text found rest := by
  obtain ⟨found, hFinds, _⟩ := (@closed_related _ names names isCongruence_true).choice_of h
  exact ⟨found, hFinds⟩

/-- A name has a character at least, so the rest is shorter. The induction below is on the
length. -/
theorem shorter_of_path {text : List Char} {name : String} {rest : List Char}
    (h : Spaced Name text name rest) : rest.length < text.length := by
  obtain ⟨start, hSkips, hName⟩ := h
  have hStart := (finds_skips hSkips).suffix.length_le
  have hSplit := congrArg List.length hName.run.split
  have hNonempty := List.length_pos_iff.mpr hName.nonempty
  rw [List.length_append] at hSplit
  omega

/-- Behind a mark the name is missing in the first element or in a later one. -/
theorem missing_behind_mark {mark : Char} (hMark : IsMark mark)
    {read : (text : List Char) → Reading (Text.Parsed TypeExpr text)}
    {scan : (text : List Char) → Reading (Text.Scanned (List TypeExpr) text)}
    {text after : List Char} (hNext : trimStart text = mark :: after)
    (hFinds : ∀ text t rest, Reads (read text) t rest → ∃ found, Finds text found rest)
    (hRead : ∀ inside, inside.length < text.length → Blames path (read inside) →
      Missing names inside path)
    (hScan : ∀ mid, mid.length < text.length → Blames path (scan mid) → Missing names mid path)
    (h : Blames path (read after) ∨
      ∃ first mid, Reads (read after) first mid ∧ Blames path (scan mid)) :
    Missing names text path := by
  have hAfter := shorter_of_mark hNext
  have hStart := finds_mark hMark (skips_iff.mpr hNext)
  rcases h with h | ⟨first, mid, hFirst, h⟩
  · exact .of_finds ⟨_, hStart⟩ (hRead after hAfter h)
  · obtain ⟨found, hElement⟩ := hFinds after first mid hFirst
    have hMid := Reads.shorter hFirst
    exact .of_finds ⟨_, hStart.behind hElement⟩ (hScan mid (by omega) h)

/-- A name is missing inside of a type, or it is the path of the type itself. -/
theorem missing_of_readPrimary {text : List Char}
    (hInside : ∀ inside, inside.length < text.length → Blames path (readUnion names inside) →
      Missing names inside path)
    (hArgs : ∀ after, after.length < text.length → Blames path (readArgs names after) →
      Missing names after path)
    (h : Blames path (readPrimary names text)) : Missing names text path := by
  rcases blames_readPrimary h with ⟨inside, hParen, h⟩ | ⟨other, after, hPath, h⟩
  · exact .of_finds ⟨_, finds_mark ⟨by decide, by decide⟩ (skips_iff.mpr hParen)⟩
      (hInside inside (shorter_of_mark hParen) h)
  · have hAfter := shorter_of_path hPath
    have hFinds := finds_path followed_tokens hPath
    rcases h with ⟨inside, hBracket, h⟩ | h | ⟨rfl, hNone⟩
    · have hShort := shorter_of_mark hBracket
      have hOpen := finds_mark ⟨by decide, by decide⟩ (skips_iff.mpr hBracket)
      exact .of_finds ⟨_, hFinds.before hOpen⟩ (hInside inside (by omega) h)
    · exact .of_finds ⟨_, hFinds⟩ (hArgs after hAfter h)
    · refine ⟨hNone, fun hLines hIdentifier => ?_⟩
      rw [hFinds.words hLines]
      have hWord : Spells other (unqualified other) := spells_iff.mpr rfl
      exact List.mem_append_left _ (mem_identifiers_of_spells hWord hIdentifier)

/-- All five levels together, by induction on the length of the text. -/
theorem missing_of_blames (text : List Char) :
    (Blames path (readPrimary names text) → Missing names text path) ∧
      (Blames path (readUnion names text) → Missing names text path) ∧
      (Blames path (readArms names text) → Missing names text path) ∧
      (Blames path (readMoreArgs names text) → Missing names text path) ∧
      (Blames path (readArgs names text) → Missing names text path) := by
  induction hLength : text.length using Nat.strongRecOn generalizing text with
  | ind n ih =>
      subst hLength
      have hUnions (text : List Char) (t : TypeExpr) (rest : List Char)
          (h : Reads (readUnion names text) t rest) : ∃ found, Finds text found rest :=
        exists_finds_of_choice ((derives_of_reads text).2 t rest h)
      have hPrimaries (text : List Char) (t : TypeExpr) (rest : List Char)
          (h : Reads (readPrimary names text) t rest) : ∃ found, Finds text found rest :=
        exists_finds_of_choice (.single ((derives_of_reads text).1 t rest h))
      have hInside (inside : List Char) (hShort : inside.length < text.length) :
          Blames path (readUnion names inside) → Missing names inside path :=
        (ih _ hShort inside rfl).2.1
      have hArms (mid : List Char) (hShort : mid.length < text.length) :
          Blames path (readArms names mid) → Missing names mid path :=
        (ih _ hShort mid rfl).2.2.1
      have hMoreArgs (mid : List Char) (hShort : mid.length < text.length) :
          Blames path (readMoreArgs names mid) → Missing names mid path :=
        (ih _ hShort mid rfl).2.2.2.1
      have hPrimary (h : Blames path (readPrimary names text)) : Missing names text path :=
        missing_of_readPrimary hInside
          (fun after hShort => (ih _ hShort after rfl).2.2.2.2) h
      refine ⟨hPrimary, fun h => ?_, fun h => ?_, fun h => ?_, fun h => ?_⟩
      · rcases blames_readUnion h with h | ⟨first, mid, hFirst, h⟩
        · exact hPrimary h
        · exact .of_finds (hPrimaries _ _ _ hFirst) (hArms mid (Reads.shorter hFirst) h)
      · obtain ⟨after, hNext, h⟩ := blames_readArms h
        exact missing_behind_mark ⟨by decide, by decide⟩ hNext hPrimaries
          (fun inside hShort => (ih _ hShort inside rfl).1) hArms h
      · obtain ⟨after, hNext, h⟩ := blames_readMoreArgs h
        exact missing_behind_mark isMark_comma hNext hUnions hInside hMoreArgs h
      · obtain ⟨after, hNext, h⟩ := blames_readArgs h
        exact missing_behind_mark ⟨by decide, by decide⟩ hNext hUnions hInside hMoreArgs h

/-- A name that reading a text fails for has no meaning, and the scan finds its
word. -/
theorem missing_of_parse {text : String} {error : TypeError}
    (h : TypeExpr.parse names text = .error error) (hFault : error.fault = .unknownName path) :
    Missing names text.toList path := by
  rw [TypeExpr.parse, readWhole] at h
  split at h
  · cases h
  · next failure hFailure =>
    cases h
    have hBlames : Blames path (readUnion names text.toList) := by
      rcases bind_eq_error_iff.mp hFailure with hUnion | ⟨p, _, hEnd⟩
      · exact ⟨failure.rest, by rw [hUnion, ← hFault]⟩
      · split at hEnd
        · cases hEnd
        · cases hEnd
          cases hFault
    exact (missing_of_blames text.toList).2.1 hBlames

end

end ToolSchema.Manifest
