import ToolSchema.Proofs.Except
import ToolSchema.TypeExpr.Parser

/-! What the readers of types do, one fact for each of them: when it succeeds,
with which value, and what it leaves unread. -/
namespace ToolSchema.TypeExpr

open Except (ok_bind bind_eq_ok_iff pure_eq_ok_iff)
open Text (Parsed Scanned isBlank trimStart)

/-- The reader succeeds with the value and leaves the rest. -/
def Reads {α : Type} {text : List Char} (reading : Reading (Parsed α text)) (value : α)
    (rest : List Char) : Prop :=
  ∃ p, reading = .ok p ∧ p.value = value ∧ p.rest = rest

def Scans {α : Type} {text : List Char} (reading : Reading (Scanned α text)) (value : α)
    (rest : List Char) : Prop :=
  ∃ p, reading = .ok p ∧ p.value = value ∧ p.rest = rest

/-! What comes after a step -/

section

variable {α β γ : Type} {text whole : List Char} {value : β} {rest : List Char}

theorem reads_ok_iff {p : Parsed β whole} :
    Reads (.ok p) value rest ↔ value = p.value ∧ rest = p.rest := by
  constructor
  · rintro ⟨_, hRead, rfl, rfl⟩
    cases hRead
    exact ⟨rfl, rfl⟩
  · rintro ⟨rfl, rfl⟩
    exact ⟨p, rfl, rfl, rfl⟩

theorem not_reads_error {failure : Failure} :
    ¬ Reads (.error failure : Reading (Parsed β whole)) value rest := by
  rintro ⟨_, hRead, _⟩
  cases hRead

/-- A step in front of a reader must succeed, whatever its result. -/
theorem reads_step_iff {step : Reading γ} {next : γ → Reading (Parsed β whole)} :
    Reads (step >>= next) value rest ↔
      ∃ result, step = .ok result ∧ Reads (next result) value rest := by
  constructor
  · rintro ⟨p, hRead, hParts⟩
    obtain ⟨result, hStep, hNext⟩ := bind_eq_ok_iff.mp hRead
    exact ⟨result, hStep, p, hNext, hParts⟩
  · rintro ⟨result, hStep, p, hNext, hParts⟩
    exact ⟨p, bind_eq_ok_iff.mpr ⟨result, hStep, hNext⟩, hParts⟩

/-- What follows a reader knows no more of it than the value and the rest. -/
theorem reads_bind_iff {step : Reading (Parsed α text)}
    {next : Parsed α text → Reading (Parsed β whole)} {P : α → List Char → Prop}
    (h : ∀ p, Reads (next p) value rest ↔ P p.value p.rest) :
    Reads (step >>= next) value rest ↔ ∃ first mid, Reads step first mid ∧ P first mid := by
  rw [reads_step_iff]
  constructor
  · rintro ⟨p, hStep, hNext⟩
    exact ⟨_, _, ⟨p, hStep, rfl, rfl⟩, (h p).mp hNext⟩
  · rintro ⟨_, _, ⟨p, hStep, rfl, rfl⟩, hP⟩
    exact ⟨p, hStep, (h p).mpr hP⟩

/-- The same after a part of the reader that need not have moved. -/
theorem reads_scan_iff {step : Reading (Scanned α text)}
    {next : Scanned α text → Reading (Parsed β whole)} {P : α → List Char → Prop}
    (h : ∀ p, Reads (next p) value rest ↔ P p.value p.rest) :
    Reads (step >>= next) value rest ↔ ∃ first mid, Scans step first mid ∧ P first mid := by
  rw [reads_step_iff]
  constructor
  · rintro ⟨p, hStep, hNext⟩
    exact ⟨_, _, ⟨p, hStep, rfl, rfl⟩, (h p).mp hNext⟩
  · rintro ⟨_, _, ⟨p, hStep, rfl, rfl⟩, hP⟩
    exact ⟨p, hStep, (h p).mpr hP⟩

/-- A reader that only does something to the value of another one. -/
theorem reads_map_iff {step : Reading (Parsed α text)} {next : Parsed α text → Parsed β whole}
    {f : α → β} (hValue : ∀ p, (next p).value = f p.value) (hRest : ∀ p, (next p).rest = p.rest) :
    Reads (do
      let p ← step
      return next p) value rest ↔ ∃ inner, Reads step inner rest ∧ value = f inner := by
  have hNext (p : Parsed α text) : Reads (pure (next p)) value rest ↔
      value = f p.value ∧ rest = p.rest := by
    rw [← hValue, ← hRest]
    exact reads_ok_iff
  simp only [reads_bind_iff (P := fun inner mid => value = f inner ∧ rest = mid) hNext,
    exists_eq_right_right']

end

/-! Tokens -/

/-- A character is found if it comes next after white space. -/
theorem expect_eq_ok_iff {c : Char} {text : List Char}
    {after : { rest : List Char // rest.length < text.length }} :
    expect c text = .ok after ↔ trimStart text = c :: after.1 := by
  rw [expect]
  split
  · next hStart => exact ⟨nofun, fun h => nomatch hStart.symm.trans h⟩
  · next first rest hStart =>
    split
    · next hFirst =>
      subst hFirst
      constructor
      · intro h
        cases h
        exact hStart
      · intro h
        cases hStart.symm.trans h
        rfl
    · next hFirst =>
      exact ⟨nofun, fun h => absurd (List.cons.inj (hStart.symm.trans h)).1 hFirst⟩

theorem exists_expect {c : Char} {text after : List Char} (h : trimStart text = c :: after) :
    ∃ hLength, expect c text = .ok ⟨after, hLength⟩ := by
  have hShort : after.length < text.length := by
    have hTrim := Text.trimStart_length_le text
    rw [h, List.length_cons] at hTrim
    exact hTrim
  exact ⟨hShort, expect_eq_ok_iff.mpr h⟩

/-- A character in front of a reader comes next after white space. -/
theorem reads_expect_iff {β : Type} {c : Char} {text whole : List Char}
    {next : { rest : List Char // rest.length < text.length } → Reading (Parsed β whole)}
    {P : List Char → Prop} {value : β} {rest : List Char}
    (h : ∀ after, Reads (next after) value rest ↔ P after.1) :
    Reads (expect c text >>= next) value rest ↔ ∃ after, trimStart text = c :: after ∧ P after := by
  rw [reads_step_iff]
  constructor
  · rintro ⟨after, hExpect, hNext⟩
    exact ⟨after.1, expect_eq_ok_iff.mp hExpect, (h after).mp hNext⟩
  · rintro ⟨after, hStart, hP⟩
    obtain ⟨hLength, hExpect⟩ := exists_expect hStart
    exact ⟨⟨after, hLength⟩, hExpect, (h ⟨after, hLength⟩).mpr hP⟩

/-- An optional character is found under the same condition. -/
theorem eat_eq_some_iff {c : Char} {text : List Char}
    {after : { rest : List Char // rest.length < text.length }} :
    eat c text = some after ↔ trimStart text = c :: after.1 := by
  rw [← expect_eq_ok_iff, eat]
  cases expect c text <;> simp

/-- And it is missing otherwise. -/
theorem eat_eq_none_iff {c : Char} {text : List Char} :
    eat c text = none ↔ ∀ after, trimStart text ≠ c :: after := by
  constructor
  · intro h after hStart
    obtain ⟨_, hExpect⟩ := exists_expect hStart
    rw [eat, hExpect] at h
    cases h
  · intro h
    cases hEat : eat c text with
    | none => rfl
    | some after => exact absurd (eat_eq_some_iff.mp hEat) (h after.1)

theorem eat_isSome_iff {c : Char} {text : List Char} :
    (eat c text).isSome = true ↔ ∃ after, trimStart text = c :: after := by
  constructor
  · intro h
    obtain ⟨after, hEat⟩ := Option.isSome_iff_exists.mp h
    exact ⟨after.1, eat_eq_some_iff.mp hEat⟩
  · rintro ⟨after, hStart⟩
    obtain ⟨_, hExpect⟩ := exists_expect hStart
    rw [eat, hExpect]
    rfl

/-- The characters of a name. It neither begins nor ends with a dot. -/
def IsName (chars : List Char) : Prop :=
  ¬ (chars = [] ∨ chars.head? = some '.' ∨ chars.getLast? = some '.')

/-- A name is the longest run of its characters, and must be one that is allowed. -/
theorem readName_iff {text : List Char} {name : String} {rest : List Char} :
    Reads (readName text) name rest ↔ IsName ((trimStart text).takeWhile isNameChar) ∧
      name = .ofList ((trimStart text).takeWhile isNameChar) ∧
      rest = (trimStart text).dropWhile isNameChar := by
  simp only [readName]
  split
  · next hName => exact ⟨nofun, fun h => absurd hName h.1⟩
  · next hName =>
    constructor
    · rintro ⟨_, hRead, rfl, rfl⟩
      cases hRead
      exact ⟨hName, rfl, rfl⟩
    · rintro ⟨-, rfl, rfl⟩
      exact ⟨_, rfl, rfl, rfl⟩

theorem readQuoted_close {quote : Char} (hQuote : quote ≠ '\\') (rest : List Char) :
    Reads (readQuoted quote (quote :: rest)) [] rest := by
  rw [readQuoted, if_pos rfl]
  · exact ⟨_, rfl, rfl, rfl⟩
  · exact fun h => absurd h hQuote
  · exact fun _ _ h => absurd h hQuote

theorem readQuoted_cons_iff {quote c : Char} (hBackslash : c ≠ '\\') (hQuote : c ≠ quote)
    {text : List Char} {chars rest : List Char} :
    Reads (readQuoted quote (c :: text)) chars rest ↔
      ∃ more, Reads (readQuoted quote text) more rest ∧ chars = c :: more := by
  rw [readQuoted, if_neg hQuote]
  · refine reads_map_iff ?_ ?_ <;> exact fun _ => rfl
  · exact fun h => absurd h hBackslash
  · exact fun _ _ h => absurd h hBackslash

/-- A character behind a backslash stands for itself, be it a quote or a backslash. -/
theorem readQuoted_escape_iff {quote c : Char} {text : List Char} {chars rest : List Char} :
    Reads (readQuoted quote ('\\' :: c :: text)) chars rest ↔
      ∃ more, Reads (readQuoted quote text) more rest ∧ chars = c :: more := by
  rw [readQuoted]
  refine reads_map_iff ?_ ?_ <;> exact fun _ => rfl

/-- A constant with a quote in front is a string. -/
theorem readConstant_quoted_iff {text inside : List Char} {quote : Char}
    (hStart : trimStart text = quote :: inside) (hQuote : isQuote quote = true)
    {value : Constant} {rest : List Char} :
    Reads (readConstant text) value rest ↔
      ∃ chars, Reads (readQuoted quote inside) chars rest ∧ value = .str (.ofList chars) := by
  rw [readConstant]
  split
  · next hOther => cases hStart.symm.trans hOther
  · next hOther =>
    cases hStart.symm.trans hOther
    rw [if_pos hQuote]
    refine reads_map_iff ?_ ?_ <;> exact fun _ => rfl

/-- A constant with a digit or a minus sign in front is a number. -/
theorem readConstant_number_iff {text inside : List Char} {first : Char}
    (hStart : trimStart text = first :: inside) (hQuote : isQuote first = false)
    (hNumber : startsNumber first = true) {value : Constant} {rest : List Char} :
    Reads (readConstant text) value rest ↔ Reads (readNumber first inside) value rest := by
  rw [readConstant]
  split
  · next hOther => cases hStart.symm.trans hOther
  · next hOther =>
    cases hStart.symm.trans hOther
    rw [if_neg (by rw [hQuote]; exact nofun), if_pos hNumber]
    refine Iff.trans (reads_map_iff (f := id) ?_ ?_) ?_
    · exact fun _ => rfl
    · exact fun _ => rfl
    · simp only [id_eq, exists_eq_right']

/-- Any other constant is one of four words. -/
theorem readConstant_word_iff {text inside : List Char} {first : Char}
    (hStart : trimStart text = first :: inside) (hQuote : isQuote first = false)
    (hNumber : startsNumber first = false) {value : Constant} {rest : List Char} :
    Reads (readConstant text) value rest ↔
      ∃ name mid, Reads (readName (first :: inside)) name mid ∧
        (((name = "True" ∨ name = "true") ∧ value = .bool true) ∨
          ((name = "False" ∨ name = "false") ∧ value = .bool false)) ∧ rest = mid := by
  rw [readConstant]
  split
  · next hOther => cases hStart.symm.trans hOther
  · next hOther =>
    cases hStart.symm.trans hOther
    rw [if_neg (by rw [hQuote]; exact nofun), if_neg (by rw [hNumber]; exact nofun)]
    refine reads_bind_iff fun name => ?_
    dsimp only
    split
    · next hWord => exact reads_ok_iff.trans (by simp [hWord, Parsed.lift])
    · next hWord => exact reads_ok_iff.trans (by simp [hWord, Parsed.lift])
    · next hWord => exact reads_ok_iff.trans (by simp [hWord, Parsed.lift])
    · next hWord => exact reads_ok_iff.trans (by simp [hWord, Parsed.lift])
    · next hTrue hTrue' hFalse hFalse' =>
      refine iff_of_false not_reads_error ?_
      rintro ⟨⟨hWord | hWord, _⟩ | ⟨hWord | hWord, _⟩, _⟩
      · exact hTrue hWord
      · exact hTrue' hWord
      · exact hFalse hWord
      · exact hFalse' hWord

theorem readTag_quoted_iff {text inside : List Char} {quote : Char}
    (hStart : trimStart text = quote :: inside) (hQuote : isQuote quote = true)
    {tag : String} {rest : List Char} :
    Reads (readTag text) tag rest ↔
      ∃ chars, Reads (readQuoted quote inside) chars rest ∧ tag = .ofList chars := by
  rw [readTag]
  split
  · next hOther => cases hStart.symm.trans hOther
  · next hOther =>
    cases hStart.symm.trans hOther
    rw [if_pos hQuote]
    refine reads_map_iff ?_ ?_ <;> exact fun _ => rfl

/-! Lists -/

/-- Elements one after another, each behind a mark. The list ends where the mark
does not come next. -/
inductive Separated {α : Type} (mark : Char) (element : List Char → α → List Char → Prop) :
    List Char → List α → List Char → Prop
  | done {text : List Char} (h : ∀ after, trimStart text ≠ mark :: after) :
      Separated mark element text [] text
  | more {text after mid rest : List Char} {value : α} {values : List α}
      (hMark : trimStart text = mark :: after) (hElement : element after value mid)
      (hMore : Separated mark element mid values rest) :
      Separated mark element text (value :: values) rest

/-- The scanner ends where no mark comes, and reads one element after each mark. -/
structure Repeats {α : Type} (mark : Char) (read : (text : List Char) → Reading (Parsed α text))
    (scan : (text : List Char) → Reading (Scanned (List α) text)) : Prop where
  done {text : List Char} (h : eat mark text = none) (values : List α) (rest : List Char) :
    Scans (scan text) values rest ↔ values = [] ∧ rest = text
  more {text : List Char} {after : { rest : List Char // rest.length < text.length }}
    (h : eat mark text = some after) (values : List α) (rest : List Char) :
    Scans (scan text) values rest ↔ ∃ first mid more, Reads (read after.1) first mid ∧
      Scans (scan mid) more rest ∧ values = first :: more

theorem scans_ok_iff {α : Type} {text : List Char} (p : Scanned α text) (value : α)
    (rest : List Char) : Scans (.ok p) value rest ↔ value = p.value ∧ rest = p.rest := by
  constructor
  · rintro ⟨_, hScan, rfl, rfl⟩
    cases hScan
    exact ⟨rfl, rfl⟩
  · rintro ⟨rfl, rfl⟩
    exact ⟨p, rfl, rfl, rfl⟩

/-- One element more in front of a scan. -/
theorem scans_cons_iff {α : Type} {text after : List Char} {reading : Reading (Parsed α after)}
    {scan : (text : List Char) → Reading (Scanned (List α) text)}
    {cons : (first : Parsed α after) → Scanned (List α) first.rest → Scanned (List α) text}
    (hValue : ∀ first more, (cons first more).value = first.value :: more.value)
    (hRest : ∀ first more, (cons first more).rest = more.rest)
    (values : List α) (rest : List Char) :
    Scans (do
      let first ← reading
      let more ← scan first.rest
      return cons first more) values rest ↔
      ∃ first mid more, Reads reading first mid ∧ Scans (scan mid) more rest ∧
        values = first :: more := by
  constructor
  · rintro ⟨_, hRead, rfl, rfl⟩
    obtain ⟨first, hFirst, hRead⟩ := bind_eq_ok_iff.mp hRead
    obtain ⟨more, hMore, hRead⟩ := bind_eq_ok_iff.mp hRead
    cases hRead
    exact ⟨_, _, _, ⟨first, hFirst, rfl, rfl⟩, ⟨more, hMore, rfl, (hRest _ _).symm⟩, hValue _ _⟩
  · rintro ⟨_, _, _, ⟨first, hFirst, rfl, rfl⟩, ⟨more, hMore, rfl, rfl⟩, rfl⟩
    simp only [hFirst, hMore, ok_bind]
    exact ⟨_, rfl, hValue _ _, hRest _ _⟩

/-- A scan that repeats a reader after each mark has read elements separated by marks. -/
theorem Repeats.scans_iff {α : Type} {mark : Char}
    {read : (text : List Char) → Reading (Parsed α text)}
    {scan : (text : List Char) → Reading (Scanned (List α) text)} (h : Repeats mark read scan)
    (text : List Char) (values : List α) (rest : List Char) :
    Scans (scan text) values rest ↔
      Separated mark (fun text value rest => Reads (read text) value rest) text values rest := by
  constructor
  · intro hScans
    induction hLength : text.length using Nat.strongRecOn generalizing text values with
    | ind n ih =>
        subst hLength
        cases hEat : eat mark text with
        | none =>
            obtain ⟨rfl, rfl⟩ := (h.done hEat _ _).mp hScans
            exact .done (eat_eq_none_iff.mp hEat)
        | some after =>
            obtain ⟨first, mid, more, hFirst, hMore, rfl⟩ := (h.more hEat _ _).mp hScans
            obtain ⟨p, hRead, hValue, rfl⟩ := hFirst
            have hShorter := Nat.lt_trans p.shorter after.2
            exact .more (eat_eq_some_iff.mp hEat) ⟨p, hRead, hValue, rfl⟩
              (ih _ hShorter _ _ hMore rfl)
  · intro hSeparated
    induction hSeparated with
    | done hMark => exact (h.done (eat_eq_none_iff.mpr hMark) _ _).mpr ⟨rfl, rfl⟩
    | more hMark hElement _ ih =>
        obtain ⟨hLength, hExpect⟩ := exists_expect hMark
        have hEat := eat_eq_some_iff.mpr (expect_eq_ok_iff.mp hExpect)
        exact (h.more hEat _ _).mpr ⟨_, _, _, hElement, ih, rfl⟩

theorem reads_repeats_iff {α β : Type} {mark : Char}
    {read : (text : List Char) → Reading (Parsed α text)}
    {scan : (text : List Char) → Reading (Scanned (List α) text)} (hScan : Repeats mark read scan)
    {text whole : List Char} {next : Scanned (List α) text → Reading (Parsed β whole)}
    {P : List α → List Char → Prop} {value : β} {rest : List Char}
    (h : ∀ p, Reads (next p) value rest ↔ P p.value p.rest) :
    Reads (scan text >>= next) value rest ↔ ∃ more mid,
      Separated mark (fun text value rest => Reads (read text) value rest) text more mid ∧
        P more mid := by
  simp only [reads_scan_iff h, hScan.scans_iff]

theorem repeats_readMore {α : Type} (read : (text : List Char) → Reading (Parsed α text)) :
    Repeats ',' read (readMore read) where
  done h _ _ := by
    rw [readMore, h]
    exact scans_ok_iff _ _ _
  more h _ _ := by
    rw [readMore, h]
    exact scans_cons_iff (fun _ _ => rfl) (fun _ _ => rfl) _ _

theorem repeats_readArms (names : Names) :
    Repeats '|' (readPrimary names) (readArms names) where
  done h _ _ := by
    rw [readArms, h]
    exact scans_ok_iff _ _ _
  more h _ _ := by
    rw [readArms, h]
    exact scans_cons_iff (fun _ _ => rfl) (fun _ _ => rfl) _ _

theorem repeats_readMoreArgs (names : Names) :
    Repeats ',' (readUnion names) (readMoreArgs names) where
  done h _ _ := by
    rw [readMoreArgs, h]
    exact scans_ok_iff _ _ _
  more h _ _ := by
    rw [readMoreArgs, h]
    exact scans_cons_iff (fun _ _ => rfl) (fun _ _ => rfl) _ _

theorem readConstants_iff {text : List Char} {values : List Constant} {rest : List Char} :
    Reads (readConstants text) values rest ↔ ∃ first mid, Reads (readConstant text) first mid ∧
      ∃ more close,
        Separated ',' (fun text value rest => Reads (readConstant text) value rest) mid more close ∧
          ∃ after, trimStart close = ']' :: after ∧ values = first :: more ∧ rest = after := by
  rw [readConstants]
  exact reads_bind_iff fun _ => reads_repeats_iff (repeats_readMore readConstant) fun _ =>
    reads_expect_iff fun _ => reads_ok_iff

/-! Types -/

/-- A union is a type without bars and more of them separated by bars. A single one is not
wrapped. -/
theorem readUnion_iff {names : Names} {text : List Char} {t : TypeExpr} {rest : List Char} :
    Reads (readUnion names text) t rest ↔ ∃ first mid, Reads (readPrimary names text) first mid ∧
      ∃ more close,
        Separated '|' (fun text t rest => Reads (readPrimary names text) t rest) mid more close ∧
          t = (if more.isEmpty then first else .union (first :: more)) ∧ rest = close := by
  rw [readUnion]
  exact reads_bind_iff fun _ => reads_repeats_iff (repeats_readArms names) fun _ => reads_ok_iff

/-- Arguments are unions in brackets, separated by commas. -/
theorem readArgs_iff {names : Names} {text : List Char} {args : List TypeExpr}
    {rest : List Char} :
    Reads (readArgs names text) args rest ↔ ∃ inside, trimStart text = '[' :: inside ∧
      ∃ first mid, Reads (readUnion names inside) first mid ∧
        ∃ more close,
          Separated ',' (fun text t rest => Reads (readUnion names text) t rest) mid more close ∧
            ∃ after, trimStart close = ']' :: after ∧ args = first :: more ∧ rest = after := by
  rw [readArgs]
  exact reads_expect_iff fun _ => reads_bind_iff fun _ =>
    reads_repeats_iff (repeats_readMoreArgs names) fun _ => reads_expect_iff fun _ => reads_ok_iff

/-- What a word stands for, together with what follows it. -/
def WordReads (names : Names) (path : String) (after : List Char) (t : TypeExpr)
    (rest : List Char) : Prop :=
  match headOf (unqualified path) (isAbstractBase path) with
  | .literal => ∃ inside, trimStart after = '[' :: inside ∧
      ∃ values, Reads (readConstants inside) values rest ∧ t = .literal values
  | .tagged => ∃ inside, trimStart after = '[' :: inside ∧
      ∃ inner mid, Reads (readUnion names inside) inner mid ∧
        ∃ tags close,
          Separated ',' (fun text tag rest => Reads (readTag text) tag rest) mid tags close ∧
            ∃ after, trimStart close = ']' :: after ∧ t = .tagged inner tags ∧ rest = after
  | .optional => ∃ inner, Reads (readArgs names after) [inner] rest ∧ t = optional inner
  | .union => ∃ args, Reads (readArgs names after) args rest ∧ t = .union args
  | .scalar type => t = type ∧ rest = after
  | .container origin =>
      ((∃ inside, trimStart after = '[' :: inside) ∧
        ∃ args, Reads (readArgs names after) args rest ∧ t = .generic origin args) ∨
      ((∀ inside, trimStart after ≠ '[' :: inside) ∧ t = .generic origin [] ∧ rest = after)
  | .other => resolve names path = some t ∧ rest = after

/-- Three dots are the ellipsis. -/
theorem readPrimary_ellipsis_iff {names : Names} {text after : List Char}
    (h : trimStart text = '.' :: '.' :: '.' :: after) (t : TypeExpr) (rest : List Char) :
    Reads (readPrimary names text) t rest ↔ t = .ellipsis ∧ rest = after := by
  rw [readPrimary]
  split
  · next hStart =>
    cases h.symm.trans hStart
    exact reads_ok_iff
  · next hStart => cases h.symm.trans hStart
  · next hOther _ => exact absurd h (hOther after)

/-- A type in parentheses is the type. -/
theorem readPrimary_paren_iff {names : Names} {text inside : List Char}
    (h : trimStart text = '(' :: inside) (t : TypeExpr) (rest : List Char) :
    Reads (readPrimary names text) t rest ↔ ∃ inner mid, Reads (readUnion names inside) inner mid ∧
      ∃ after, trimStart mid = ')' :: after ∧ t = inner ∧ rest = after := by
  rw [readPrimary]
  split
  · next hStart => cases h.symm.trans hStart
  · next hStart =>
    cases h.symm.trans hStart
    exact reads_bind_iff fun _ => reads_expect_iff fun _ => reads_ok_iff
  · next hOther => exact absurd h (hOther inside)

/-- What does not begin with dots or a parenthesis begins with a name, which decides how to go
on. -/
theorem readPrimary_word_iff {names : Names} {text : List Char}
    (hDots : ∀ after, trimStart text ≠ '.' :: '.' :: '.' :: after)
    (hParen : ∀ after, trimStart text ≠ '(' :: after) (t : TypeExpr) (rest : List Char) :
    Reads (readPrimary names text) t rest ↔
      ∃ path after, Reads (readName (trimStart text)) path after ∧
        WordReads names path after t rest := by
  rw [readPrimary]
  split
  · next hStart => exact absurd hStart (hDots _)
  · next hStart => exact absurd hStart (hParen _)
  · refine reads_bind_iff fun path => ?_
    rw [WordReads]
    generalize headOf (unqualified path.value) (isAbstractBase path.value) = head
    cases head with
    | literal =>
        refine reads_expect_iff fun _ => reads_map_iff ?_ ?_ <;> exact fun _ => rfl
    | tagged =>
        exact reads_expect_iff fun _ => reads_bind_iff fun _ =>
          reads_repeats_iff (repeats_readMore readTag) fun _ => reads_expect_iff fun _ =>
            reads_ok_iff
    | optional =>
        have hArity :
            (∃ inner, Reads (readArgs names path.rest) [inner] rest ∧ t = optional inner) ↔
            ∃ args mid, Reads (readArgs names path.rest) args mid ∧
              ∃ inner, args = [inner] ∧ t = optional inner ∧ rest = mid := by
          constructor
          · rintro ⟨inner, hArgs, rfl⟩
            exact ⟨_, _, hArgs, inner, rfl, rfl, rfl⟩
          · rintro ⟨_, _, hArgs, inner, rfl, rfl, rfl⟩
            exact ⟨inner, hArgs, rfl⟩
        refine Iff.trans (reads_bind_iff fun args => ?_) hArity.symm
        split
        · next inner hInner =>
          refine reads_ok_iff.trans ?_
          simp [hInner, Parsed.lift]
        · next hOther =>
          refine iff_of_false not_reads_error ?_
          rintro ⟨inner, hInner, _⟩
          exact hOther inner hInner
    | union =>
        refine reads_map_iff ?_ ?_ <;> exact fun _ => rfl
    | scalar type => exact reads_ok_iff
    | container origin =>
        dsimp only
        rw [← not_exists, ← eat_isSome_iff]
        split
        · next hBracket =>
          rw [or_iff_left fun hNone => hNone.1 hBracket, and_iff_right hBracket]
          refine reads_map_iff ?_ ?_ <;> exact fun _ => rfl
        · next hBracket =>
          rw [or_iff_right fun hSome => hBracket hSome.1, and_iff_right hBracket]
          exact reads_ok_iff
    | other =>
        dsimp only
        split
        · next type hType =>
          rw [hType, Option.some.injEq, eq_comm]
          exact reads_ok_iff
        · next hNone =>
          refine iff_of_false not_reads_error ?_
          rintro ⟨hType, _⟩
          cases hNone.symm.trans hType

/-- White space in front of a type does not matter. -/
theorem readPrimary_congr {names : Names} {a b : List Char} (h : trimStart a = trimStart b)
    (t : TypeExpr) (rest : List Char) :
    Reads (readPrimary names a) t rest ↔ Reads (readPrimary names b) t rest := by
  by_cases hDots : ∃ after, trimStart b = '.' :: '.' :: '.' :: after
  · obtain ⟨after, hDots⟩ := hDots
    rw [readPrimary_ellipsis_iff hDots, readPrimary_ellipsis_iff (h.trans hDots)]
  · by_cases hParen : ∃ inside, trimStart b = '(' :: inside
    · obtain ⟨inside, hParen⟩ := hParen
      rw [readPrimary_paren_iff hParen, readPrimary_paren_iff (h.trans hParen)]
    · rw [not_exists] at hDots hParen
      rw [readPrimary_word_iff hDots hParen, readPrimary_word_iff (h ▸ hDots) (h ▸ hParen), h]

theorem readUnion_congr {names : Names} {a b : List Char} (h : trimStart a = trimStart b)
    (t : TypeExpr) (rest : List Char) :
    Reads (readUnion names a) t rest ↔ Reads (readUnion names b) t rest := by
  simp only [readUnion_iff, readPrimary_congr h]

/-- A text is read as a type if nothing but white space is left. -/
theorem parse_eq_ok_iff {names : Names} {input : String} {t : TypeExpr} :
    parse names input = .ok t ↔
      ∃ rest, Reads (readUnion names input.toList) t rest ∧ trimStart rest = [] := by
  rw [parse, readWhole]
  cases readUnion names input.toList with
  | error failure =>
      constructor
      · exact nofun
      · rintro ⟨_, ⟨_, h, _⟩, _⟩
        cases h
  | ok p =>
      rw [ok_bind]
      cases hRest : trimStart p.rest with
      | nil =>
          constructor
          · intro h
            cases h
            exact ⟨_, ⟨p, rfl, rfl, rfl⟩, hRest⟩
          · rintro ⟨_, ⟨_, h, rfl, rfl⟩, _⟩
            cases h
            rfl
      | cons c after =>
          constructor
          · exact nofun
          · rintro ⟨_, ⟨_, h, rfl, rfl⟩, hNothing⟩
            cases h
            cases hRest.symm.trans hNothing

end ToolSchema.TypeExpr
