import ToolSchema.Proofs.Extraction.Durations
import ToolSchema.Proofs.Value.Texts

/-! Dates, times of day, and the two together. The third is built from the
parts of the first two in the same way, and all values are told apart by what
they are written as. -/
namespace ToolSchema

open Except (bind_eq_ok_iff mapError_eq_ok_iff)

/-- The parts of a day stand under their names. -/
structure Arguments.HasDay (args : Arguments) (year month day : Int64) : Prop where
  year : args.int "year" = .ok year
  month : args.int "month" = .ok month
  day : args.int "day" = .ok day

/-- The parts of a time stand under their names, or they are zero. -/
structure Arguments.HasTime (args : Arguments) (hour minute second : Int64) : Prop where
  hour : args.intOr "hour" 0 = .ok hour
  minute : args.intOr "minute" 0 = .ok minute
  second : args.intOr "second" 0 = .ok second

namespace Temporal

/-- The components of a value, or the seconds of a duration. -/
def content : Temporal → List Int
  | .date d => [d.year, d.month, d.day]
  | .dateTime d t => [d.year, d.month, d.day, t.hour, t.minute, t.second]
  | .time t => [t.hour, t.minute, t.second]
  | .duration d => [d.seconds]

/-- A date or time is its kind and its components. -/
theorem eq_iff_content (a b : Temporal) : a = b ↔ a.kind = b.kind ∧ a.content = b.content := by
  constructor
  · rintro rfl
    exact ⟨rfl, rfl⟩
  · rintro ⟨hKind, hContent⟩
    cases a <;> cases b <;> try cases hKind
    all_goals simp only [content, List.cons.injEq, Int.natCast_inj, and_true] at hContent
    · obtain ⟨hYear, hMonth, hDay⟩ := hContent
      rw [Date.ext hYear hMonth hDay]
    · obtain ⟨hYear, hMonth, hDay, hHour, hMinute, hSecond⟩ := hContent
      rw [Date.ext hYear hMonth hDay, TimeOfDay.ext hHour hMinute hSecond]
    · obtain ⟨hHour, hMinute, hSecond⟩ := hContent
      rw [TimeOfDay.ext hHour hMinute hSecond]
    · rw [Duration.ext hContent]

/-- A component fits if it is in its bounds, and then it keeps its value. -/
theorem fit_eq_ok_iff {low high : Int} {message : String} {n : Int64} {i : Int} :
    fit low high message n = .ok i ↔ (low ≤ i ∧ i ≤ high) ∧ i = n.toInt := by
  unfold fit
  split
  · next hLow =>
    refine iff_of_false nofun ?_
    rintro ⟨⟨hLow', -⟩, rfl⟩
    omega
  · split
    · next hHigh =>
      refine iff_of_false nofun ?_
      rintro ⟨⟨-, hHigh'⟩, rfl⟩
      omega
    · rw [Except.ok.injEq, eq_comm]
      exact (and_iff_right_of_imp fun he => by omega).symm

theorem fitNat_eq_ok_iff {message : String} {n : Int64} {i : Nat} :
    fitNat message n = .ok i ↔ i ≤ 0xFFFFFFFF ∧ (i : Int) = n.toInt := by
  have hMap : fitNat message n = .ok i ↔
      ∃ value, fit 0 0xFFFFFFFF message n = .ok value ∧ value.toNat = i := by
    rw [fitNat]
    cases fit 0 0xFFFFFFFF message n <;> simp [Except.map]
  rw [hMap]
  simp only [fit_eq_ok_iff]
  constructor
  · rintro ⟨value, ⟨hRange, hValue⟩, rfl⟩
    omega
  · rintro ⟨hRange, hValue⟩
    exact ⟨i, ⟨by omega, hValue⟩, by omega⟩

/-- There is a date if and only if there is one with these parts. -/
theorem buildDate_eq_ok_iff {args : Arguments} {year month day : Int64}
    (hDay : args.HasDay year month day) {date : Date} : buildDate args = .ok date ↔
      date.year = year.toInt ∧ date.month = month.toInt ∧ date.day = day.toInt := by
  simp only [buildDate, hDay.year, hDay.month, hDay.day, Except.ok_bind, bind_eq_ok_iff,
    fit_eq_ok_iff, fitNat_eq_ok_iff]
  constructor
  · rintro ⟨y, ⟨-, hYear⟩, m, ⟨-, hMonth⟩, d, ⟨-, hDayOfMonth⟩, h⟩
    split at h
    · cases h
      exact ⟨hYear, hMonth, hDayOfMonth⟩
    · cases h
  · rintro ⟨hYear, hMonth, hDayOfMonth⟩
    have hYears := date.year_bounds
    have hMonths := date.month_bounds
    have hDays := date.day_bounds
    refine ⟨date.year, ⟨?_, hYear⟩, date.month, ⟨by omega, hMonth⟩, date.day,
      ⟨by omega, hDayOfMonth⟩, dif_pos date.valid⟩
    change -2147483648 ≤ date.year ∧ date.year ≤ 2147483647
    omega

/-- The constructor of times succeeds for the components of a time, and makes that time of them. -/
theorem buildTime_eq_ok_iff {args : Arguments} {hour minute second : Int64}
    (hTime : args.HasTime hour minute second) {time : TimeOfDay} : buildTime args = .ok time ↔
      time.hour = hour.toInt ∧ time.minute = minute.toInt ∧ time.second = second.toInt := by
  simp only [buildTime, part, hTime.hour, hTime.minute, hTime.second, Except.ok_bind,
    bind_eq_ok_iff, fitNat_eq_ok_iff]
  constructor
  · rintro ⟨h', ⟨-, hHour⟩, m, ⟨-, hMinute⟩, s, ⟨-, hSecond⟩, h⟩
    split at h
    · cases h
      exact ⟨hHour, hMinute, hSecond⟩
    · cases h
  · rintro ⟨hHour, hMinute, hSecond⟩
    have hParts := time.parts_lt
    exact ⟨time.hour, ⟨by omega, hHour⟩, time.minute, ⟨by omega, hMinute⟩, time.second,
      ⟨by omega, hSecond⟩, dif_pos time.valid⟩

/-- Nothing but the parts of the day matters for a date, or for its refusal. -/
theorem buildDate_congr {a b : Arguments} {year month day : Int64} (ha : a.HasDay year month day)
    (hb : b.HasDay year month day) : buildDate a = buildDate b := by
  simp only [buildDate, ha.year, ha.month, ha.day, hb.year, hb.month, hb.day]

theorem buildTime_congr {a b : Arguments} {hour minute second : Int64}
    (ha : a.HasTime hour minute second) (hb : b.HasTime hour minute second) :
    buildTime a = buildTime b := by
  simp only [buildTime, part, ha.hour, ha.minute, ha.second, hb.hour, hb.minute, hb.second]

end Temporal

namespace Components

/-- The components with zero for those that are left out, or the seconds of a duration. -/
def content : Components → List Int
  | .date year month day => [year.toInt, month.toInt, day.toInt]
  | .dateTime year month day hour minute second =>
    [year.toInt, month.toInt, day.toInt, (hour.getD 0).toInt, (minute.getD 0).toInt,
      (second.getD 0).toInt]
  | .time hour minute second =>
    [(hour.getD 0).toInt, (minute.getD 0).toInt, (second.getD 0).toInt]
  | .duration days seconds => [Duration.secondsOfDays days + Duration.secondsAlone seconds]

section

variable {args : Arguments} {year month day : Int64} {hour minute second : Option Int64}

theorem PassedBy.hasDay_of_date (h : (Components.date year month day).PassedBy args) :
    args.HasDay year month day where
  year := h.int (by simp [named])
  month := h.int (by simp [named])
  day := h.int (by simp [named])

theorem PassedBy.hasTime_of_time (h : (Components.time hour minute second).PassedBy args) :
    args.HasTime (hour.getD 0) (minute.getD 0) (second.getD 0) where
  hour := h.intOr (by simp [named])
  minute := h.intOr (by simp [named])
  second := h.intOr (by simp [named])

/-- The components of a date with a time are those of a date and those of a time. -/
theorem PassedBy.of_dateTime
    (h : (Components.dateTime year month day hour minute second).PassedBy args) :
    (Components.date year month day).PassedBy args ∧
      (Components.time hour minute second).PassedBy args := by
  constructor <;> intro name n hm <;> apply h <;> simp only [named, List.mem_cons] at hm ⊢ <;> tauto

end

/-- What is built has the components that were passed. -/
theorem PassedBy.built {components : Components} {args : Arguments} {result : Value}
    (h : components.PassedBy args) (hBuilt : Constructor.temporal components.kind args = .ok result) :
    ∃ value : Temporal, result = .temporal value ∧ value.kind = components.kind ∧
      value.content = components.content := by
  cases components with
  | date year month day =>
      obtain ⟨date, hDate, hResult⟩ := bind_eq_ok_iff.mp hBuilt
      cases hResult
      have hDay := (Temporal.buildDate_eq_ok_iff h.hasDay_of_date).mp hDate
      exact ⟨_, rfl, rfl, by simp [Temporal.content, content, hDay]⟩
  | dateTime year month day hour minute second =>
      obtain ⟨date, hDate, hBuilt⟩ := bind_eq_ok_iff.mp hBuilt
      obtain ⟨time, hTime, hResult⟩ := bind_eq_ok_iff.mp hBuilt
      cases hResult
      have hDay := (Temporal.buildDate_eq_ok_iff h.of_dateTime.1.hasDay_of_date).mp hDate
      have hParts := (Temporal.buildTime_eq_ok_iff h.of_dateTime.2.hasTime_of_time).mp hTime
      exact ⟨_, rfl, rfl, by simp [Temporal.content, content, hDay, hParts]⟩
  | time hour minute second =>
      obtain ⟨time, hTime, hResult⟩ := bind_eq_ok_iff.mp hBuilt
      cases hResult
      have hParts := (Temporal.buildTime_eq_ok_iff h.hasTime_of_time).mp hTime
      exact ⟨_, rfl, rfl, by simp [Temporal.content, content, hParts]⟩
  | duration days seconds =>
      obtain ⟨duration, hDuration, hResult⟩ := bind_eq_ok_iff.mp hBuilt
      cases hResult
      have hSum := ((Temporal.buildDuration_eq_ok_iff h).mp hDuration).2.2
      exact ⟨_, rfl, rfl, by simp [Temporal.content, content, hSum]⟩

/-- What has the components that were passed is built. A duration is not always: its sum may be in
range when its parts are not. -/
theorem PassedBy.temporal_eq_ok {components : Components} {args : Arguments}
    (h : components.PassedBy args) (hKind : components.kind ≠ .duration) {value : Temporal}
    (hSame : value.kind = components.kind) (hContent : value.content = components.content) :
    Constructor.temporal components.kind args = .ok (.temporal value) := by
  cases components <;> cases value <;> try cases hSame
  all_goals simp only [Temporal.content, content, List.cons.injEq, and_true] at hContent
  · have hDate := (Temporal.buildDate_eq_ok_iff h.hasDay_of_date).mpr hContent
    exact bind_eq_ok_iff.mpr ⟨_, hDate, rfl⟩
  · obtain ⟨hYear, hMonth, hDay, hParts⟩ := hContent
    have hDate := (Temporal.buildDate_eq_ok_iff h.of_dateTime.1.hasDay_of_date).mpr
      ⟨hYear, hMonth, hDay⟩
    have hTime := (Temporal.buildTime_eq_ok_iff h.of_dateTime.2.hasTime_of_time).mpr hParts
    exact bind_eq_ok_iff.mpr ⟨_, hDate, bind_eq_ok_iff.mpr ⟨_, hTime, rfl⟩⟩
  · have hTime := (Temporal.buildTime_eq_ok_iff h.hasTime_of_time).mpr hContent
    exact bind_eq_ok_iff.mpr ⟨_, hTime, rfl⟩
  · exact absurd rfl hKind

end Components

namespace Strategy

/-- Values are the same if and only if they are of one kind and have the same
components. -/
theorem same_iff_content {a b : Components} {first second : Json} (hFirst : a.GivenBy first)
    (hSecond : b.GivenBy second) {name other : String} {x y : Value}
    (hx : (temporalSchema name a.kind).eval first = .ok x)
    (hy : (temporalSchema other b.kind).eval second = .ok y) :
    (x == y) = true ↔ a.kind = b.kind ∧ a.content = b.content := by
  obtain ⟨args, hArgs, hEval⟩ := Components.eval_eq hFirst name
  obtain ⟨args', hArgs', hEval'⟩ := Components.eval_eq hSecond other
  rw [hEval, mapError_eq_ok_iff] at hx
  rw [hEval', mapError_eq_ok_iff] at hy
  obtain ⟨value, rfl, hKind, hContent⟩ := hArgs.built hx
  obtain ⟨value', rfl, hKind', hContent'⟩ := hArgs'.built hy
  rw [← hKind, ← hContent, ← hKind', ← hContent', ← Temporal.eq_iff_content,
    ← Temporal.same_iff]
  rfl

/-- What the schema of dates with times does, compared with the schemas of dates and of
times. Each schema reports refusals under its own name. -/
structure Agree (dateName timeName name : String) (ofDate ofTime ofBoth : Except Error Value) :
    Prop where
  accepted : (∃ result, ofBoth = .ok result) ↔
    (∃ date, ofDate = .ok date) ∧ ∃ time, ofTime = .ok time
  text : ∀ date time result, ofDate = .ok date → ofTime = .ok time → ofBoth = .ok result →
    ∃ dateText timeText, date.toJson = .str dateText ∧ time.toJson = .str timeText ∧
      result.toJson = .str (dateText ++ "T" ++ timeText)
  noDate : (¬ ∃ date, ofDate = .ok date) → ∃ refusal,
    ofDate = .error (.construction dateName refusal) ∧ ofBoth = .error (.construction name refusal)
  noTime : (∃ date, ofDate = .ok date) → (¬ ∃ time, ofTime = .ok time) → ∃ refusal,
    ofTime = .error (.construction timeName refusal) ∧ ofBoth = .error (.construction name refusal)

/-- A date with a time is made of both, the date first, so its refusal is the one of the date or
else the one of the time. -/
theorem agree_of_parts (dateName timeName name : String) (day : Except Refusal Date)
    (timeOfDay : Except Refusal TimeOfDay) :
    Agree dateName timeName name
      ((day >>= fun d => pure (.temporal (.date d))).mapError (.construction dateName))
      ((timeOfDay >>= fun t => pure (.temporal (.time t))).mapError (.construction timeName))
      ((day >>= fun d => timeOfDay >>= fun t => pure (.temporal (.dateTime d t))).mapError
        (.construction name)) := by
  cases day with
  | error refusal =>
      exact ⟨⟨nofun, nofun⟩, nofun, fun _ => ⟨refusal, rfl, rfl⟩, nofun⟩
  | ok d =>
    have hSome : ∃ date, (.ok (.temporal (.date d)) : Except Error Value) = .ok date := ⟨_, rfl⟩
    cases timeOfDay with
    | error refusal =>
        exact ⟨⟨nofun, nofun⟩, nofun, fun hNone => absurd hSome hNone,
          fun _ _ => ⟨refusal, rfl, rfl⟩⟩
    | ok t =>
        refine ⟨⟨fun _ => ⟨hSome, _, rfl⟩, fun _ => ⟨_, rfl⟩⟩, ?_, fun hNone => absurd hSome hNone,
          fun _ hNone => absurd ⟨_, rfl⟩ hNone⟩
        intro date time result hDate hTime hResult
        cases hDate
        cases hTime
        cases hResult
        exact ⟨d.text, t.text, rfl, rfl, rfl⟩

/-- The three schemas on three values that give the same components, in any order of members. -/
theorem agree {year month day : Int64} {hour minute second : Option Int64}
    {date time both : Json} (hDate : (Components.date year month day).GivenBy date)
    (hTime : (Components.time hour minute second).GivenBy time)
    (hBoth : (Components.dateTime year month day hour minute second).GivenBy both)
    (dateName timeName name : String) :
    Agree dateName timeName name ((temporalSchema dateName .date).eval date)
      ((temporalSchema timeName .time).eval time) ((temporalSchema name .dateTime).eval both) := by
  obtain ⟨dateArgs, hDateArgs, hOfDate⟩ := Components.eval_eq hDate dateName
  obtain ⟨timeArgs, hTimeArgs, hOfTime⟩ := Components.eval_eq hTime timeName
  obtain ⟨args, hArgs, hOfBoth⟩ := Components.eval_eq hBoth name
  simp only [Components.kind] at hOfDate hOfTime hOfBoth
  have hDay := Temporal.buildDate_congr hArgs.of_dateTime.1.hasDay_of_date hDateArgs.hasDay_of_date
  have hTimeOfDay := Temporal.buildTime_congr hArgs.of_dateTime.2.hasTime_of_time
    hTimeArgs.hasTime_of_time
  have hBuild : Constructor.temporal .dateTime args = Temporal.buildDate dateArgs >>= fun d =>
      Temporal.buildTime timeArgs >>= fun t => pure (.temporal (.dateTime d t)) := by
    rw [← hDay, ← hTimeOfDay]
    rfl
  rw [hOfDate, hOfTime, hOfBoth, hBuild]
  exact agree_of_parts dateName timeName name (Temporal.buildDate dateArgs)
    (Temporal.buildTime timeArgs)

/-- A value that is not for a duration is accepted if there is a date or a time with its
components. -/
theorem accepts_iff_exists {components : Components} {value : Json}
    (h : components.GivenBy value) (hKind : components.kind ≠ .duration) (name : String) :
    (∃ result, (temporalSchema name components.kind).eval value = .ok result) ↔
      ∃ built : Temporal, built.kind = components.kind ∧ built.content = components.content := by
  obtain ⟨args, hArgs, hEval⟩ := Components.eval_eq h name
  simp only [hEval, mapError_eq_ok_iff]
  constructor
  · rintro ⟨result, hResult⟩
    obtain ⟨built, -, hBuilt⟩ := hArgs.built hResult
    exact ⟨built, hBuilt⟩
  · rintro ⟨built, hSame, hContent⟩
    exact ⟨_, hArgs.temporal_eq_ok hKind hSame hContent⟩

/-- Dates and times are accepted if they exist, dates with times agree with dates and with times,
and values are told apart by their kinds and their components. -/
theorem temporalSchema_agrees_and_distinguishes :
    (∀ (components : Components) (value : Json) (name : String), components.GivenBy value →
      components.kind ≠ .duration →
      ((∃ result, (temporalSchema name components.kind).eval value = .ok result) ↔
        ∃ built : Temporal, built.kind = components.kind ∧ built.content = components.content)) ∧
    (∀ (year month day : Int64) (hour minute second : Option Int64) (date time both : Json)
      (dateName timeName name : String), (Components.date year month day).GivenBy date →
      (Components.time hour minute second).GivenBy time →
      (Components.dateTime year month day hour minute second).GivenBy both →
      Agree dateName timeName name ((temporalSchema dateName .date).eval date)
        ((temporalSchema timeName .time).eval time)
        ((temporalSchema name .dateTime).eval both)) ∧
    ∀ (a b : Components) (first second : Json) (name other : String) (x y : Value),
      a.GivenBy first → b.GivenBy second →
      (temporalSchema name a.kind).eval first = .ok x →
      (temporalSchema other b.kind).eval second = .ok y →
      ((x == y) = true ↔ a.kind = b.kind ∧ a.content = b.content) := by
  refine ⟨?_, ?_, ?_⟩
  · intro components value name h hKind
    exact accepts_iff_exists h hKind name
  · intro year month day hour minute second date time both dateName timeName name hDate hTime hBoth
    exact agree hDate hTime hBoth dateName timeName name
  · intro a b first other name other x y hFirst hSecond hx hy
    exact same_iff_content hFirst hSecond hx hy

/-- A leap day with and without a time. The missing parts of the time are zero. -/
theorem temporalSchema_distinguishes_leap_days :
    ∃ date time both,
      (temporalSchema "date" .date).eval
        (.object [("month", .int 2), ("year", .int 2024), ("day", .int 29)]) = .ok date ∧
      (temporalSchema "time" .time).eval (.object [("hour", .int 13)]) = .ok time ∧
      (temporalSchema "datetime" .dateTime).eval
        (.object [("year", .int 2024), ("month", .int 2), ("day", .int 29), ("hour", .int 13)]) =
          .ok both ∧
      (∃ dateText timeText, date.toJson = .str dateText ∧ time.toJson = .str timeText ∧
        both.toJson = .str (dateText ++ "T" ++ timeText)) ∧
      (date == both) = false := by
  obtain ⟨hAccepts, hAgree, hSame⟩ := temporalSchema_agrees_and_distinguishes
  have hDate : (Components.date 2024 2 29).GivenBy
      (.object [("month", .int 2), ("year", .int 2024), ("day", .int 29)]) :=
    ⟨[("month", 2), ("year", 2024), ("day", 29)], .swap _ _ _, rfl⟩
  have hTime : (Components.time (some 13) none none).GivenBy (.object [("hour", .int 13)]) :=
    ⟨[("hour", 13)], .refl _, rfl⟩
  have hBoth : (Components.dateTime 2024 2 29 (some 13) none none).GivenBy (.object
      [("year", .int 2024), ("month", .int 2), ("day", .int 29), ("hour", .int 13)]) :=
    ⟨[("year", 2024), ("month", 2), ("day", 29), ("hour", 13)], .refl _, rfl⟩
  have hParts := hAgree _ _ _ _ _ _ _ _ _ "date" "time" "datetime" hDate hTime hBoth
  obtain ⟨d, hd⟩ := (hAccepts _ _ "date" hDate (by decide)).mpr
    ⟨.date ⟨2024, 2, 29, by decide⟩, rfl, by decide⟩
  obtain ⟨t, ht⟩ := (hAccepts _ _ "time" hTime (by decide)).mpr
    ⟨.time ⟨13, 0, 0, by decide⟩, rfl, by decide⟩
  obtain ⟨both, hb⟩ := hParts.accepted.mpr ⟨⟨d, hd⟩, t, ht⟩
  refine ⟨d, t, both, hd, ht, hb, hParts.text d t both hd ht hb, ?_⟩
  rw [Bool.eq_false_iff]
  intro h
  cases ((hSame _ _ _ _ "date" "datetime" d both hDate hBoth hd hb).mp h).1

end Strategy

end ToolSchema
