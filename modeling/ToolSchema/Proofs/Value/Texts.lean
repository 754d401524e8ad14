import Mathlib.Data.List.Basic
import ToolSchema.Proofs.Number.Decimal
import ToolSchema.Value.Basic

/-! The texts of dates, times of day and durations tell apart what they are
written for. All parts but the year have two digits, so a text is taken apart
from its end, and every kind has a mark that no earlier kind has. -/
namespace ToolSchema

namespace Number

/-- The digits of a number after the zeros that a width asks for. -/
def paddedDigits (width n : Nat) : List Char :=
  List.replicate (width - (Nat.toDigits 10 n).length) '0' ++ Nat.toDigits 10 n

/-- The integer that is written, of any size. -/
def signedValue (text : List Char) : Int :=
  let (negative, digits) := splitSign text
  if negative then -ofDigits digits else ofDigits digits

/-- Zeros in front do not count, so digits read back as the number whatever the width is. -/
theorem ofDigits_paddedDigits (width n : Nat) : ofDigits (paddedDigits width n) = n := by
  rw [paddedDigits, ofDigits_zeros, ofDigits_toDigits]

theorem isDigit_of_mem_paddedDigits {width n : Nat} {c : Char} (h : c ∈ paddedDigits width n) :
    c.isDigit = true := by
  rcases List.mem_append.mp h with h | h
  · rw [List.eq_of_mem_replicate h]
    rfl
  · exact isDigit_of_mem_toDigits h

/-- Numbers below a hundred have two digits when they are padded to two. -/
theorem length_paddedDigits {n : Nat} (h : n < 100) : (paddedDigits 2 n).length = 2 := by
  have hLength : (Nat.toDigits 10 n).length ≤ 2 :=
    (Nat.length_toDigits_le_iff (by decide) (by decide)).mpr h
  rw [paddedDigits, List.length_append, List.length_replicate]
  omega

theorem paddedDigits_inj {width n m : Nat} (h : paddedDigits width n = paddedDigits width m) :
    n = m := by
  rw [← ofDigits_paddedDigits width n, h, ofDigits_paddedDigits]

/-- Two digits can be split off from what follows them. -/
theorem paddedDigits_append_inj {n m : Nat} (hn : n < 100) (hm : m < 100) {rest rest' : List Char}
    (h : paddedDigits 2 n ++ rest = paddedDigits 2 m ++ rest') : n = m ∧ rest = rest' := by
  obtain ⟨hDigits, hRest⟩ :=
    List.append_inj h ((length_paddedDigits hn).trans (length_paddedDigits hm).symm)
  exact ⟨paddedDigits_inj hDigits, hRest⟩

theorem signedValue_digits {digits : List Char} (h : ∀ c ∈ digits, c.isDigit = true) :
    signedValue digits = ofDigits digits := by
  cases digits with
  | nil => rfl
  | cons first more => rw [signedValue, splitSign_digit (h first List.mem_cons_self)]; rfl

/-- The text of an integer is read back as it. -/
theorem signedValue_toString (i : Int) : signedValue (toString i).toList = i := by
  rw [toList_toString]
  split
  · next hSign =>
    rw [signedValue_digits fun c => isDigit_of_mem_toDigits, ofDigits_toDigits]
    exact Int.toNat_of_nonneg hSign
  · next hSign =>
    change -((ofDigits (Nat.toDigits 10 (-i).toNat) : Nat) : Int) = i
    rw [ofDigits_toDigits]
    omega

end Number

open Number (paddedDigits signedValue ofDigits ofDigits_paddedDigits isDigit_of_mem_paddedDigits
  length_paddedDigits paddedDigits_inj paddedDigits_append_inj signedValue_digits)

theorem toList_zeros (count : Nat) : ("".pushn '0' count).toList = List.replicate count '0' := by
  rw [String.pushn_eq_repeat_push]
  induction count with
  | zero => rfl
  | succ count ih =>
      rw [List.replicate_succ', ← ih]
      exact String.toList_push '0'

/-- The digits of a number that is not negative fill the width. -/
theorem toList_zeroPadded (width n : Nat) :
    (zeroPadded width n).toList = paddedDigits width n := by
  rw [zeroPadded, if_neg (Int.not_lt.mpr (Int.natCast_nonneg n)), String.toList_append,
    toList_zeros, Int.natAbs_natCast]
  change List.replicate (width - (toString n).length) '0' ++ (Nat.repr n).toList = _
  rw [← String.length_toList]
  change List.replicate (width - (Nat.repr n).toList.length) '0' ++ _ = _
  rw [Nat.toList_repr]
  rfl

theorem toList_zeroPadded_of_neg (width : Nat) {n : Int} (h : n < 0) :
    (zeroPadded width n).toList = '-' :: paddedDigits (width - 1) n.natAbs := by
  have hRest := toList_zeroPadded (width - 1) n.natAbs
  rw [zeroPadded, if_neg (Int.not_lt.mpr (Int.natCast_nonneg _)), Int.natAbs_natCast] at hRest
  rw [zeroPadded, if_pos h, String.append_assoc, String.toList_append, hRest]
  rfl

/-- The sign in front of the digits of a year. -/
def yearSign (year : Int) : List Char :=
  if year < 0 then ['-'] else if 9999 < year then ['+'] else []

/-- A year is its sign and four digits or more. The years from 0 to 9999 have no sign. -/
theorem toList_yearText (year : Int) :
    (yearText year).toList = yearSign year ++ paddedDigits 4 year.natAbs := by
  rw [yearText, yearSign]
  split
  · next hNegative => exact toList_zeroPadded_of_neg 5 hNegative
  · next hNegative =>
    obtain ⟨n, rfl⟩ := Int.eq_ofNat_of_zero_le (Int.not_lt.mp hNegative)
    split
    · rw [String.toList_append, toList_zeroPadded]
      rfl
    · exact toList_zeroPadded 4 n

example : yearText (-44) = "-0044" ∧ yearText 12024 = "+12024" := by decide

/-- The year is read back from its text. -/
theorem signedValue_yearText (year : Int) : signedValue (yearText year).toList = year := by
  have hDigits := ofDigits_paddedDigits 4 year.natAbs
  rw [toList_yearText, yearSign]
  split
  · change -((ofDigits (paddedDigits 4 year.natAbs) : Nat) : Int) = year
    omega
  · split
    · change ((ofDigits (paddedDigits 4 year.natAbs) : Nat) : Int) = year
      omega
    · rw [List.nil_append, signedValue_digits fun c => isDigit_of_mem_paddedDigits]
      omega

/-- A year is written with digits and a sign. -/
theorem mem_yearText {year : Int} {c : Char} (h : c ∈ (yearText year).toList) :
    c.isDigit = true ∨ c = '-' ∨ c = '+' := by
  rw [toList_yearText, List.mem_append] at h
  rcases h with h | h
  · have hSign : c = '-' ∨ c = '+' := by
      unfold yearSign at h
      split at h
      · exact .inl (List.mem_singleton.mp h)
      · split at h
        · exact .inr (List.mem_singleton.mp h)
        · cases h
    exact .inr hSign
  · exact .inl (isDigit_of_mem_paddedDigits h)

attribute [ext] Date TimeOfDay Duration

theorem daysInMonth_le (year : Int) (month : Nat) : daysInMonth year month ≤ 31 := by
  unfold daysInMonth
  split <;> try decide
  split <;> decide

theorem month_of_daysInMonth {year : Int} {month : Nat} (h : 0 < daysInMonth year month) :
    1 ≤ month ∧ month ≤ 12 := by
  unfold daysInMonth at h
  split at h <;> simp_all

namespace Date

/-- The bounds that a date carries, as facts about its parts. -/
theorem year_bounds (date : Date) : -262143 ≤ date.year ∧ date.year ≤ 262142 := by
  have hValid := date.valid
  simp only [isDate, Bool.and_eq_true, decide_eq_true_eq] at hValid
  exact hValid.1.1

theorem month_bounds (date : Date) : 1 ≤ date.month ∧ date.month ≤ 12 := by
  have hValid := date.valid
  simp only [isDate, Bool.and_eq_true, decide_eq_true_eq] at hValid
  exact month_of_daysInMonth (Nat.lt_of_lt_of_le hValid.1.2 hValid.2)

theorem day_bounds (date : Date) : 1 ≤ date.day ∧ date.day ≤ 31 := by
  have hValid := date.valid
  simp only [isDate, Bool.and_eq_true, decide_eq_true_eq] at hValid
  exact ⟨hValid.1.2, Nat.le_trans hValid.2 (daysInMonth_le _ _)⟩

/-- A date is written part by part, with the year of any width in front. -/
theorem toList_text (date : Date) : date.text.toList = (yearText date.year).toList ++
    '-' :: (paddedDigits 2 date.month ++ '-' :: paddedDigits 2 date.day) := by
  simp [text, toList_zeroPadded]

theorem mem_text {date : Date} {c : Char} (h : c ∈ date.text.toList) :
    c.isDigit = true ∨ c = '-' ∨ c = '+' := by
  simp only [toList_text, List.mem_append, List.mem_cons] at h
  rcases h with h | rfl | h | rfl | h
  · exact mem_yearText h
  · exact .inr (.inl rfl)
  · exact .inl (isDigit_of_mem_paddedDigits h)
  · exact .inr (.inl rfl)
  · exact .inl (isDigit_of_mem_paddedDigits h)

/-- Month and day have two digits each, so the end of the text tells them, and what is left is the
year. -/
theorem text_injective {a b : Date} (h : a.text.toList = b.text.toList) : a = b := by
  have hMonth (date : Date) : date.month < 100 := by have := date.month_bounds; omega
  have hDay (date : Date) : date.day < 100 := by have := date.day_bounds; omega
  have hLength (date : Date) :
      ('-' :: (paddedDigits 2 date.month ++ '-' :: paddedDigits 2 date.day)).length = 6 := by
    simp [length_paddedDigits (hMonth date), length_paddedDigits (hDay date)]
  rw [toList_text, toList_text] at h
  -- The year has no fixed width, but everything behind it has.
  obtain ⟨hYearText, hRest⟩ := List.append_inj' h ((hLength a).trans (hLength b).symm)
  obtain ⟨hSameMonth, hRest⟩ :=
    paddedDigits_append_inj (hMonth a) (hMonth b) (List.cons.inj hRest).2
  ext1
  · rw [← signedValue_yearText a.year, hYearText, signedValue_yearText]
  · exact hSameMonth
  · exact paddedDigits_inj (List.cons.inj hRest).2

end Date

namespace TimeOfDay

theorem bounds (time : TimeOfDay) : time.hour < 24 ∧ time.minute < 60 ∧ time.second < 60 := by
  have hValid := time.valid
  simpa only [isTimeOfDay, Bool.and_eq_true, decide_eq_true_eq, and_assoc] using hValid

theorem toList_text (time : TimeOfDay) : time.text.toList = paddedDigits 2 time.hour ++
    ':' :: (paddedDigits 2 time.minute ++ ':' :: paddedDigits 2 time.second) := by
  simp [text, toList_zeroPadded]

theorem mem_text {time : TimeOfDay} {c : Char} (h : c ∈ time.text.toList) :
    c.isDigit = true ∨ c = ':' := by
  simp only [toList_text, List.mem_append, List.mem_cons] at h
  rcases h with h | rfl | h | rfl | h
  · exact .inl (isDigit_of_mem_paddedDigits h)
  · exact .inr rfl
  · exact .inl (isDigit_of_mem_paddedDigits h)
  · exact .inr rfl
  · exact .inl (isDigit_of_mem_paddedDigits h)

theorem parts_lt (time : TimeOfDay) : time.hour < 100 ∧ time.minute < 100 ∧ time.second < 100 := by
  have hValid := time.valid
  simp only [isTimeOfDay, Bool.and_eq_true, decide_eq_true_eq] at hValid
  omega

theorem length_text (time : TimeOfDay) : time.text.toList.length = 8 := by
  obtain ⟨hHour, hMinute, hSecond⟩ := time.parts_lt
  simp [toList_text, length_paddedDigits hHour, length_paddedDigits hMinute,
    length_paddedDigits hSecond]

/-- Three parts of equal width are told apart by their place. -/
theorem text_injective {a b : TimeOfDay} (h : a.text.toList = b.text.toList) : a = b := by
  rw [toList_text, toList_text] at h
  obtain ⟨hHour, hRest⟩ := paddedDigits_append_inj a.parts_lt.1 b.parts_lt.1 h
  obtain ⟨hMinute, hRest⟩ :=
    paddedDigits_append_inj a.parts_lt.2.1 b.parts_lt.2.1 (List.cons.inj hRest).2
  exact TimeOfDay.ext hHour hMinute (paddedDigits_inj (List.cons.inj hRest).2)

end TimeOfDay

namespace Json

/-- What dates and times are written with. -/
def IsPlain (c : Char) : Prop := c.isDigit = true ∨ c ∈ ['-', '+', ':', 'T']

/-- Characters that need no escape are written as they are. -/
theorem escape_of_plain {c : Char} (h : IsPlain c) : escape c = [c] := by
  rcases h with h | h
  · unfold escape
    split <;> try exact absurd h (by decide)
    have hRange : 48 ≤ c.toNat ∧ c.toNat ≤ 57 := Char.isDigit_iff_toNat.mp h
    rw [if_neg (by omega)]
  · simp only [List.mem_cons, List.not_mem_nil, or_false] at h
    rcases h with rfl | rfl | rfl | rfl <;> rfl

/-- Plain text stands between quotes as it is. -/
theorem toList_renderString {text : String} (h : ∀ c ∈ text.toList, IsPlain c) :
    (renderString text).toList = '"' :: text.toList ++ ['"'] := by
  have hText : text.toList.flatMap escape = text.toList := by
    rw [List.flatMap_congr fun c hm => escape_of_plain (h c hm), List.flatMap_singleton']
  rw [renderString, String.toList_ofList, hText]

end Json

/-- The text of a date needs no escape in JSON. Nor does that of a time of day. -/
theorem Date.isPlain_of_mem {date : Date} {c : Char} (h : c ∈ date.text.toList) :
    Json.IsPlain c := by
  rcases mem_text h with h | rfl | rfl
  · exact .inl h
  · exact .inr (by decide)
  · exact .inr (by decide)

theorem TimeOfDay.isPlain_of_mem {time : TimeOfDay} {c : Char} (h : c ∈ time.text.toList) :
    Json.IsPlain c := by
  rcases mem_text h with h | rfl
  · exact .inl h
  · exact .inr (by decide)

namespace Temporal

/-- The kind of value that a text is of. -/
def kindOfText (text : List Char) : TemporalKind :=
  if text.head? ≠ some '"' then .duration
  else if 'T' ∈ text then .dateTime
  else if ':' ∈ text then .time
  else .date

/-- The rendered forms, kind by kind. All but the duration stand between quotes. -/
theorem toList_render_date (date : Date) :
    (Temporal.date date).toJson.render.toList = '"' :: date.text.toList ++ ['"'] :=
  Json.toList_renderString fun _ hm => Date.isPlain_of_mem hm

theorem toList_render_time (time : TimeOfDay) :
    (Temporal.time time).toJson.render.toList = '"' :: time.text.toList ++ ['"'] :=
  Json.toList_renderString fun _ hm => TimeOfDay.isPlain_of_mem hm

theorem toList_render_dateTime (date : Date) (time : TimeOfDay) :
    (Temporal.dateTime date time).toJson.render.toList =
      '"' :: (date.text.toList ++ 'T' :: time.text.toList) ++ ['"'] := by
  have hText : (date.text ++ "T" ++ time.text).toList =
      date.text.toList ++ 'T' :: time.text.toList := by
    simp
  rw [← hText]
  apply Json.toList_renderString
  rw [hText, List.forall_mem_append, List.forall_mem_cons]
  exact ⟨fun c => Date.isPlain_of_mem, .inr (by decide), fun c => TimeOfDay.isPlain_of_mem⟩

theorem toList_render_duration (duration : Duration) :
    (Temporal.duration duration).toJson.render.toList = (toString duration.seconds).toList := rfl

/-- The kind can be told from the rendered text: by a quote at its front, then by the mark between a
date and a time, then by those inside a time. -/
theorem kindOfText_render (value : Temporal) :
    kindOfText value.toJson.render.toList = value.kind := by
  cases value with
  | date date =>
      have hPoint : 'T' ∉ date.text.toList ∧ ':' ∉ date.text.toList := by
        constructor <;> intro hm <;> exact absurd (Date.mem_text hm) (by decide)
      rw [toList_render_date, kindOfText]
      simp [hPoint, kind]
  | dateTime date time =>
      rw [toList_render_dateTime, kindOfText]
      simp [kind]
  | time time =>
      have hLetter : 'T' ∉ time.text.toList := fun hm => absurd (TimeOfDay.mem_text hm) (by decide)
      have hColon : ':' ∈ time.text.toList := by simp [TimeOfDay.toList_text]
      rw [toList_render_time, kindOfText]
      simp [hLetter, hColon, kind]
  | duration duration =>
      obtain ⟨first, more, hText, hFirst, -⟩ := Number.exists_cons_toString duration.seconds
      have hQuote : first ≠ '"' := by
        rintro rfl
        exact absurd hFirst (by decide)
      rw [toList_render_duration, kindOfText, hText]
      simp [hQuote, kind]

theorem quoted_inj {a b : List Char} (h : '"' :: a ++ ['"'] = '"' :: b ++ ['"']) : a = b :=
  (List.append_left_inj _).mp (List.cons.inj h).2

/-- Values with the same text are the same values. -/
theorem same_iff (a b : Temporal) : a.same b = true ↔ a = b := by
  rw [same, beq_iff_eq]
  constructor
  · intro h
    have hText := congrArg String.toList h
    have hKind : a.kind = b.kind := by rw [← kindOfText_render a, hText, kindOfText_render]
    cases a <;> cases b <;> try cases hKind
    · rw [toList_render_date, toList_render_date] at hText
      rw [Date.text_injective (quoted_inj hText)]
    · rw [toList_render_dateTime, toList_render_dateTime] at hText
      obtain ⟨hDate, hTime⟩ := List.append_inj' (quoted_inj hText)
        (by simp only [List.length_cons, TimeOfDay.length_text])
      rw [Date.text_injective hDate, TimeOfDay.text_injective (List.cons.inj hTime).2]
    · rw [toList_render_time, toList_render_time] at hText
      rw [TimeOfDay.text_injective (quoted_inj hText)]
    · rw [toList_render_duration, toList_render_duration] at hText
      have hSeconds := congrArg signedValue hText
      rw [Number.signedValue_toString, Number.signedValue_toString] at hSeconds
      rw [Duration.ext hSeconds]
  · intro h
    rw [h]

end Temporal

end ToolSchema
