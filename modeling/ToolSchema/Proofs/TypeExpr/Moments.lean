import ToolSchema.Proofs.TypeExpr.Cursor
import ToolSchema.Proofs.TypeExpr.Display

/-! What a run of the cursor does, one fact for each of its steps: where it ends, with which
result, and that all moments on the way are in order. A run that follows a reading of the rest of
the text ends the way the reading does. -/
namespace ToolSchema.TypeExpr.Cursor

open Documentation (fromByte? fromByte?_utf8Len)
open Text (trimStart)

variable {input : String} {text rest : List Char}

/-! Places in the input -/

/-- The byte where the rest of a text begins. -/
def offset (input : String) (rest : List Char) : Nat := byteCount input.toList - byteCount rest

/-- The position is not inside a character, nor past the end. -/
def IsBorder (input : String) (position : Nat) : Prop := String.Pos.Raw.IsValid input ⟨position⟩

theorem byteCount_append (front back : List Char) :
    byteCount (front ++ back) = byteCount front + byteCount back := by
  rw [byteCount, String.ofList_append, String.utf8ByteSize_append, byteCount, byteCount]

theorem byteCount_cons (c : Char) (text : List Char) :
    byteCount (c :: text) = c.utf8Size + byteCount text := by
  rw [byteCount, byteCount, String.utf8ByteSize_ofList, String.utf8ByteSize_ofList,
    String.utf8Len_cons, Nat.add_comm]

/-- The bytes before the rest are those of the text before it. -/
theorem exists_front (h : rest <:+ input.toList) :
    ∃ front, input.toList = front ++ rest ∧ offset input rest = byteCount front := by
  obtain ⟨front, hInput⟩ := h
  refine ⟨front, hInput.symm, ?_⟩
  rw [offset, ← hInput, byteCount_append, Nat.add_sub_cancel]

/-- The rest of the input begins on a border of its characters. -/
theorem isBorder_offset (h : rest <:+ input.toList) : IsBorder input (offset input rest) := by
  obtain ⟨front, hInput, hOffset⟩ := exists_front h
  refine String.Pos.Raw.isValid_iff_exists_append.mpr ⟨.ofList front, .ofList rest, ?_, ?_⟩
  · rw [← String.ofList_append, ← hInput, String.ofList_toList]
  · rw [hOffset]
    rfl

/-- Reading on from the byte where the rest begins gives the rest. -/
theorem fromByte?_offset (h : rest <:+ input.toList) :
    fromByte? (offset input rest) input.toList = some rest := by
  obtain ⟨front, hInput, hOffset⟩ := exists_front h
  rw [hOffset, hInput, byteCount, String.utf8ByteSize_ofList, fromByte?_utf8Len]

theorem offset_input (input : String) : offset input input.toList = 0 := Nat.sub_self _

/-- The rest of a rest begins behind the characters before it. -/
theorem offset_append {front : List Char} (h : front ++ rest <:+ input.toList) :
    offset input rest = offset input (front ++ rest) + byteCount front := by
  obtain ⟨before, hInput⟩ := h
  rw [offset, offset, ← hInput]
  simp only [byteCount_append]
  omega

/-- Moving behind a character adds as many bytes as the character has. -/
theorem offset_cons {c : Char} (h : c :: rest <:+ input.toList) :
    offset input rest = offset input (c :: rest) + c.utf8Size := by
  have hAppend : offset input rest = offset input ([c] ++ rest) + byteCount [c] := offset_append h
  rwa [byteCount_cons] at hAppend

/-- A shorter rest begins later. With fewer characters it begins strictly later. -/
theorem offset_le_offset (hText : text <:+ input.toList) (h : rest <:+ text) :
    offset input text ≤ offset input rest := by
  obtain ⟨front, rfl⟩ := h
  rw [offset_append hText]
  exact Nat.le_add_right _ _

theorem offset_lt_offset (hText : text <:+ input.toList) (h : rest <:+ text)
    (hShort : rest.length < text.length) : offset input text < offset input rest := by
  obtain ⟨front, rfl⟩ := h
  cases front with
  | nil => exact absurd hShort (Nat.lt_irrefl _)
  | cons c front =>
      have hSize := c.utf8Size_pos
      rw [offset_append hText, byteCount_cons]
      omega

/-- The end of the input is where no characters are left, not only where no bytes are. -/
theorem utf8ByteSize_le_offset_iff (h : rest <:+ input.toList) :
    input.utf8ByteSize ≤ offset input rest ↔ rest = [] := by
  have hBytes : input.utf8ByteSize = byteCount input.toList := by
    rw [byteCount, String.ofList_toList]
  obtain ⟨front, hInput, hOffset⟩ := exists_front h
  rw [hOffset, hBytes, hInput, byteCount_append]
  cases rest with
  | nil => exact iff_of_true (Nat.le_refl _) rfl
  | cons c rest =>
      have hSize := c.utf8Size_pos
      rw [byteCount_cons]
      exact iff_of_false (by omega) (List.cons_ne_nil c rest)

/-! Calls inside calls -/

/-- How far up a part of the reader is. At one place it calls only what is further down. -/
def Procedure.rank : Procedure → Nat
  | .union => 3
  | .primary => 2
  | .arms | .arguments | .tags | .constants => 1
  | .blanks | .name | .quoted | .number => 0

/-- There are four ranks, which bounds the calls that stand at one place. -/
theorem Procedure.rank_lt (procedure : Procedure) : procedure.rank < 4 := by
  cases procedure <;> decide

/-- The inner call begins later in the text or, at the same place, is further down. -/
def Call.Below (inner outer : Call) : Prop :=
  outer.position < inner.position ∨
    outer.position = inner.position ∧ inner.procedure.rank < outer.procedure.rank

theorem Call.Below.position_le {inner outer : Call} (h : inner.Below outer) :
    outer.position ≤ inner.position := by
  rcases h with h | ⟨h, _⟩
  · exact Nat.le_of_lt h
  · exact Nat.le_of_eq h

/-- A part further down may stand in for one that is further up. -/
theorem Call.Below.of_rank_le {procedure other : Procedure} {position : Nat} {outer : Call}
    (h : Call.Below ⟨procedure, position⟩ outer) (hRank : other.rank ≤ procedure.rank) :
    Call.Below ⟨other, position⟩ outer := by
  rcases h with hLater | ⟨hSame, hBelow⟩
  · exact .inl hLater
  · exact .inr ⟨hSame, Nat.lt_of_le_of_lt hRank hBelow⟩

/-- The cursor is on a border between characters, inside calls each of which is below the
others around it. -/
structure Sound (input : String) (moment : Moment) : Prop where
  border : IsBorder input moment.position
  nested : moment.calls.Pairwise Call.Below

/-- The calls have begun at this rest of the input or before, and what comes behind this place
has room. -/
structure Within (input : String) (text : List Char) (room : Nat) (calls : List Call) : Prop where
  suffix : text <:+ input.toList
  nested : calls.Pairwise Call.Below
  begun : ∀ call ∈ calls, call.position ≤ offset input text
  room : 4 * text.length ≤ room

/-- A part of the reader may be called at this rest of the input, inside the given calls. -/
structure Ready (input : String) (text : List Char) (procedure : Procedure) (room : Nat)
    (calls : List Call) : Prop where
  suffix : text <:+ input.toList
  nested : (⟨procedure, offset input text⟩ :: calls).Pairwise Call.Below
  room : 4 * text.length + procedure.rank < room

section

variable {room : Nat} {calls : List Call} {procedure : Procedure}

/-- The moments of a run that stays within its bounds are sound. -/
theorem Within.sound (h : Within input text room calls) :
    Sound input ⟨calls, offset input text⟩ := ⟨isBorder_offset h.suffix, h.nested⟩

/-- Moving on in the text keeps the bounds, since calls are only left further behind. -/
theorem Within.move (h : Within input text room calls) (hRest : rest <:+ text) :
    Within input rest room calls where
  suffix := hRest.trans h.suffix
  nested := h.nested
  begun call hm := Nat.le_trans (h.begun call hm) (offset_le_offset h.suffix hRest)
  room := Nat.le_trans (Nat.mul_le_mul_left 4 hRest.length_le) h.room

/-- Behind the place everything may be called. -/
theorem Within.later (h : Within input text room calls) (hRest : rest <:+ text)
    (hShort : rest.length < text.length) : Ready input rest procedure room calls where
  suffix := hRest.trans h.suffix
  nested := List.pairwise_cons.mpr ⟨fun call hm => .inl (Nat.lt_of_le_of_lt (h.begun call hm)
    (offset_lt_offset h.suffix hRest hShort)), h.nested⟩
  room := by
    have hRank := procedure.rank_lt
    have hRoom := h.room
    omega

theorem Ready.below (h : Ready input text procedure room calls) :
    ∀ call ∈ calls, Call.Below ⟨procedure, offset input text⟩ call :=
  (List.pairwise_cons.mp h.nested).1

theorem Ready.within (h : Ready input text procedure room calls) :
    Within input text room calls where
  suffix := h.suffix
  nested := (List.pairwise_cons.mp h.nested).2
  begun call hm := (h.below call hm).position_le
  room := by
    have hRoom := h.room
    omega

theorem Ready.exists_room (h : Ready input text procedure room calls) :
    ∃ less, room = less + 1 := Nat.exists_eq_add_one.mpr (Nat.zero_lt_of_lt h.room)

/-- What holds inside a call that begins here. -/
theorem Ready.entered (h : Ready input text procedure (room + 1) calls) :
    Within input text room (⟨procedure, offset input text⟩ :: calls) where
  suffix := h.suffix
  nested := h.nested
  begun := List.forall_mem_cons.mpr ⟨Nat.le_refl _, h.within.begun⟩
  room := by
    have hRoom := h.room
    omega

/-- A call inside one that begins here, of a part further down. -/
theorem Ready.inside (h : Ready input text procedure (room + 1) calls) {inner : Procedure}
    (hRank : inner.rank < procedure.rank) :
    Ready input text inner room (⟨procedure, offset input text⟩ :: calls) where
  suffix := h.suffix
  nested := by
    refine List.pairwise_cons.mpr ⟨List.forall_mem_cons.mpr ⟨.inr ⟨rfl, hRank⟩, ?_⟩, h.nested⟩
    exact fun call hm => (h.below call hm).of_rank_le (Nat.le_of_lt hRank)
  room := by
    have hRoom := h.room
    omega

/-- What is ready for one part is ready for a part further down. -/
theorem Ready.of_rank_le (h : Ready input text procedure room calls) {other : Procedure}
    (hRank : other.rank ≤ procedure.rank) : Ready input text other room calls where
  suffix := h.suffix
  nested := List.pairwise_cons.mpr
    ⟨fun call hm => (h.below call hm).of_rank_le hRank, h.within.nested⟩
  room := by
    have hRoom := h.room
    omega

theorem Ready.of_room_le (h : Ready input text procedure room calls) {most : Nat}
    (hMost : room ≤ most) : Ready input text procedure most calls :=
  ⟨h.suffix, h.nested, Nat.lt_of_lt_of_le h.room hMost⟩

/-- What is ready at one place is ready at later ones. -/
theorem Ready.move (h : Ready input text procedure room calls) (hRest : rest <:+ text) :
    Ready input rest procedure room calls := by
  rcases Nat.lt_or_eq_of_le hRest.length_le with hShort | hSame
  · exact h.within.later hRest hShort
  · cases hRest.eq_of_length hSame
    exact h

end

/-! Runs -/

/-- From one rest of the input the reader gets to another one, with this result and whatever the
moments before. All moments on the way are in order. -/
def Runs {α : Type} (input : String) (reader : Cursor α) (text : List Char)
    (result : Except Stop α) (rest : List Char) : Prop :=
  ∃ moments, (∀ moment ∈ moments, Sound input moment) ∧ ∀ before,
    (ExceptT.run reader).run ⟨input, offset input text, before⟩ =
      (result, ⟨input, offset input rest, before ++ moments⟩)

section

variable {α β : Type} {mid : List Char} {room : Nat} {calls : List Call} {procedure : Procedure}

/-- A step that leaves the cursor where it is. -/
theorem runs_of_stays {reader : Cursor α} {result : Except Stop α}
    (h : ∀ before, (ExceptT.run reader).run ⟨input, offset input text, before⟩ =
      (result, ⟨input, offset input text, before⟩)) : Runs input reader text result text := by
  refine ⟨[], List.forall_mem_nil _, fun before => ?_⟩
  rw [h, List.append_nil]

theorem runs_pure (a : α) : Runs input (pure a) text (.ok a) text := runs_of_stays fun _ => rfl

/-- A run goes on where the first part of it ends, and the moments of both parts are in order. -/
theorem Runs.bind {reader : Cursor α} {next : α → Cursor β} {a : α} {result : Except Stop β}
    (h : Runs input reader text (.ok a) mid) (hNext : Runs input (next a) mid result rest) :
    Runs input (reader >>= next) text result rest := by
  obtain ⟨first, hFirst, hReader⟩ := h
  obtain ⟨more, hMore, hNext⟩ := hNext
  refine ⟨first ++ more, List.forall_mem_append.mpr ⟨hFirst, hMore⟩, fun before => ?_⟩
  rw [ExceptT.run_bind, StateT.run_bind, hReader, ← List.append_assoc]
  exact hNext _

/-- A run that stops early does nothing of what comes behind. -/
theorem Runs.bind_error {reader : Cursor α} {next : α → Cursor β} {stop : Stop}
    (h : Runs input reader text (.error stop) mid) :
    Runs input (reader >>= next) text (.error stop) mid := by
  obtain ⟨moments, hSound, hReader⟩ := h
  refine ⟨moments, hSound, fun before => ?_⟩
  rw [ExceptT.run_bind, StateT.run_bind, hReader]
  rfl

theorem run_get (state : State) :
    (ExceptT.run (get : Cursor State)).run state = pure (.ok state, state) := rfl

theorem runs_position : Runs input position text (.ok (offset input text)) text :=
  runs_of_stays fun _ => rfl

/-- At a border, the test for the last byte is one for the last character. -/
theorem runs_isAtEnd (h : text <:+ input.toList) :
    Runs input isAtEnd text (.ok (decide (text = []))) text := by
  rw [← decide_eq_decide.mpr (utf8ByteSize_le_offset_iff h)]
  exact runs_of_stays fun _ => rfl

theorem runs_fail (fault : TypeFault) :
    Runs input (fail fault : Cursor α) text (.error (.fault ⟨input, offset input text, fault⟩))
      text := runs_of_stays fun _ => rfl

/-- Cutting off the rest at a border does not fail. Nor does cutting between two borders, below. -/
theorem runs_sliceFrom (h : rest <:+ input.toList) :
    Runs input (sliceFrom (offset input rest)) text (.ok rest) text := by
  refine runs_of_stays fun before => ?_
  rw [sliceFrom, ExceptT.run_bind, StateT.run_bind, run_get, pure_bind]
  dsimp only
  rw [fromByte?_offset h]
  rfl

theorem runs_current (h : text <:+ input.toList) :
    Runs input current text (.ok text.head?) text :=
  runs_position.bind ((runs_sliceFrom h).bind (runs_pure _))

theorem runs_current_cons {c : Char} (h : c :: rest <:+ input.toList) :
    Runs input current (c :: rest) (.ok (some c)) (c :: rest) := runs_current h

/-- The characters between two places of the cursor. -/
theorem runs_slice {whole front : List Char} (h : whole <:+ input.toList)
    (hSplit : front ++ rest = whole) :
    Runs input (slice (offset input whole) (offset input rest)) text (.ok front) text := by
  subst hSplit
  have hRest : rest <:+ front ++ rest := List.suffix_append _ _
  refine (runs_sliceFrom h).bind ((runs_sliceFrom (hRest.trans h)).bind ?_)
  rw [if_pos (offset_le_offset h hRest), List.length_append, Nat.add_sub_cancel, List.take_left]
  exact runs_pure _

/-- The cursor may be put at any place from which the open calls are still behind. -/
theorem runs_moveTo (h : Within input rest room calls) :
    Runs input (moveTo calls (offset input rest)) text (.ok ()) rest :=
  ⟨[⟨calls, offset input rest⟩], List.forall_mem_singleton.mpr h.sound, fun _ => rfl⟩

/-- The cursor moves behind the character that it stands at. -/
theorem runs_advance {c : Char} (h : Within input (c :: rest) room calls) :
    Runs input (advance calls) (c :: rest) (.ok ()) rest := by
  refine (runs_current h.suffix).bind (runs_position.bind ?_)
  rw [← offset_cons h.suffix]
  exact runs_moveTo (h.move (List.suffix_cons c rest))

theorem runs_enter (h : Ready input text procedure (room + 1) calls) :
    Runs input (enter procedure calls) text (.ok (⟨procedure, offset input text⟩ :: calls)) text :=
  runs_position.bind ((runs_moveTo h.entered).bind (runs_pure _))

/-! Tokens -/

/-- Skipping characters calls itself once for each of them, always further on in the text, so the
room lasts. By induction on the text. -/
theorem runs_skipWhile {p : Char → Bool} (h : Ready input text procedure room calls) :
    Runs input (skipWhile procedure p room calls) text (.ok ()) (text.dropWhile p) := by
  induction text generalizing room calls with
  | nil =>
      obtain ⟨room, rfl⟩ := h.exists_room
      exact (runs_enter h).bind ((runs_current h.suffix).bind (runs_pure _))
  | cons c rest ih =>
      obtain ⟨room, rfl⟩ := h.exists_room
      refine (runs_enter h).bind ((runs_current_cons h.suffix).bind ?_)
      dsimp only
      by_cases hChar : p c = true
      · rw [if_pos hChar, List.dropWhile_cons_of_pos hChar]
        exact (runs_advance h.entered).bind
          (ih (h.entered.later (List.suffix_cons c rest) (Nat.lt_succ_self _)))
      · rw [if_neg hChar, List.dropWhile_cons_of_neg hChar]
        exact runs_pure _

theorem runs_skipBlanks (h : Ready input text .blanks room calls) :
    Runs input (skipBlanks room calls) text (.ok ()) (trimStart text) := runs_skipWhile h

theorem trimStart_suffix (text : List Char) : trimStart text <:+ text := List.dropWhile_suffix _

/-- Looking for a mark moves the cursor to it, across white space. -/
theorem runs_peek (c : Char) (h : Ready input text .blanks room calls) :
    Runs input (peek c room calls) text (.ok (decide ((trimStart text).head? = some c)))
      (trimStart text) :=
  (runs_skipBlanks h).bind ((runs_current ((trimStart_suffix text).trans h.suffix)).bind
    (runs_pure _))

theorem runs_eat_of_next {c : Char} (h : Ready input text .blanks room calls)
    (hNext : trimStart text = c :: rest) : Runs input (eat c room calls) text (.ok true) rest := by
  have hPeek := runs_peek c h
  have hThere := h.within.move (trimStart_suffix text)
  rw [hNext] at hPeek hThere
  rw [List.head?_cons, decide_eq_true rfl] at hPeek
  exact hPeek.bind ((runs_advance hThere).bind (runs_pure _))

/-- A mark that is not there leaves the cursor behind the white space. -/
theorem runs_eat_of_not_next {c : Char} (h : Ready input text .blanks room calls)
    (hOther : ∀ after, trimStart text ≠ c :: after) :
    Runs input (eat c room calls) text (.ok false) (trimStart text) := by
  have hPeek := runs_peek c h
  rw [decide_eq_false fun hHead => (List.head?_eq_some_iff.mp hHead).elim hOther] at hPeek
  exact hPeek.bind (runs_pure _)

end

end ToolSchema.TypeExpr.Cursor
