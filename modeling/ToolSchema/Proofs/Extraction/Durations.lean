import ToolSchema.Proofs.Extraction.Components

/-! How long a duration may be. Its days and its seconds are checked one after
the other, and their sum is checked after that, so the sum of two parts of
opposite signs does not make up for a part that is too large by itself. -/
namespace ToolSchema

open Except (bind_eq_ok_iff)

namespace Duration

/-- The numbers of seconds that a duration can have. -/
def InRange (seconds : Int) : Prop := -9223372036854775 ≤ seconds ∧ seconds ≤ 9223372036854775

instance (seconds : Int) : Decidable (InRange seconds) := inferInstanceAs (Decidable (_ ∧ _))

/-- The seconds of so many days. Days that are left out are none. -/
def secondsOfDays (days : Option Int64) : Int := (days.getD 0).toInt * 86400

/-- The seconds of a duration apart from its days. Those that are left out are none. -/
def secondsAlone (seconds : Option Int64) : Int := (seconds.getD 0).toInt

theorem isDuration_iff (seconds : Int) : isDuration seconds = true ↔ InRange seconds := by
  rw [isDuration, Bool.and_eq_true, decide_eq_true_eq, decide_eq_true_eq]
  rfl

/-- The product fits in 64 bits if it is a duration. -/
theorem toInt_days {days : Option Int64} (h : InRange (secondsOfDays days)) :
    (days.getD 0 * 86400).toInt = secondsOfDays days := by
  rw [InRange, secondsOfDays] at h
  rw [Int64.toInt_mul, secondsOfDays]
  change ((days.getD 0).toInt * 86400).bmod (2 ^ 64) = _
  rw [Int.bmod_eq_of_le] <;> omega

/-- Two durations do not leave 64 bits when they are added. -/
theorem toInt_sum {days seconds : Option Int64} (hDays : InRange (secondsOfDays days))
    (hSeconds : InRange (secondsAlone seconds)) :
    (days.getD 0 * 86400 + seconds.getD 0).toInt = secondsOfDays days + secondsAlone seconds := by
  rw [Int64.toInt_add, toInt_days hDays]
  change (secondsOfDays days + secondsAlone seconds).bmod (2 ^ 64) = _
  rw [InRange] at hDays hSeconds
  rw [Int.bmod_eq_of_le] <;> omega

end Duration

namespace Temporal

open Duration (InRange secondsOfDays secondsAlone)

/-- A duration is made of its seconds, if it can have so many. -/
theorem durationOf_eq_ok_iff {message : String} {seconds : Int} {duration : Duration} :
    durationOf message seconds = .ok duration ↔ duration.seconds = seconds := by
  rw [durationOf]
  split
  · next hRange =>
    constructor
    · intro h
      cases h
      rfl
    · rintro rfl
      rfl
  · next hRange =>
    constructor
    · intro h
      cases h
    · rintro rfl
      exact absurd duration.valid hRange

/-- A duration of so many seconds is there if they are in range. -/
theorem exists_duration_iff (seconds : Int) :
    (∃ duration : Duration, duration.seconds = seconds) ↔ InRange seconds := by
  rw [← Duration.isDuration_iff]
  constructor
  · rintro ⟨duration, rfl⟩
    exact duration.valid
  · intro h
    exact ⟨⟨seconds, h⟩, rfl⟩

/-- The constructor makes three checks, of which the last is about the sum. -/
theorem buildDuration_eq_ok_iff {days seconds : Option Int64} {args : Arguments}
    (h : (Components.duration days seconds).PassedBy args) {duration : Duration} :
    buildDuration args = .ok duration ↔ InRange (secondsOfDays days) ∧
      InRange (secondsAlone seconds) ∧
      duration.seconds = secondsOfDays days + secondsAlone seconds := by
  have hDays : args.intOr "days" 0 = .ok (days.getD 0) := h.intOr (by simp [Components.named])
  have hSeconds : args.intOr "seconds" 0 = .ok (seconds.getD 0) :=
    h.intOr (by simp [Components.named])
  simp only [buildDuration, hDays, hSeconds, Except.ok_bind, bind_eq_ok_iff, durationOf_eq_ok_iff]
  rw [← exists_duration_iff, ← exists_duration_iff]
  constructor
  · rintro ⟨ofDays, hOfDays, alone, hAlone, hSum⟩
    exact ⟨⟨ofDays, hOfDays⟩, ⟨alone, hAlone⟩, by rw [hSum, hOfDays, hAlone]; rfl⟩
  · rintro ⟨⟨ofDays, hOfDays⟩, ⟨alone, hAlone⟩, hSum⟩
    exact ⟨ofDays, hOfDays, alone, hAlone, by rw [hSum, hOfDays, hAlone]⟩

end Temporal

namespace Strategy

open Duration (InRange secondsOfDays secondsAlone)

/-- A value is a duration if its days, its seconds and their sum are in range. -/
theorem eval_duration_eq_ok_iff {days seconds : Option Int64} {value : Json}
    (h : (Components.duration days seconds).GivenBy value) (name : String) (result : Value) :
    (temporalSchema name .duration).eval value = .ok result ↔ InRange (secondsOfDays days) ∧
      InRange (secondsAlone seconds) ∧ ∃ duration : Duration,
        duration.seconds = secondsOfDays days + secondsAlone seconds ∧
        .temporal (.duration duration) = result := by
  obtain ⟨args, hPassed, hEval⟩ := Components.eval_eq h name
  change (temporalSchema name .duration).eval value =
    (Temporal.buildDuration args >>= fun duration => pure (.temporal (.duration duration))).mapError
      (.construction name) at hEval
  rw [hEval, Except.mapError_eq_ok_iff, bind_eq_ok_iff]
  simp only [Temporal.buildDuration_eq_ok_iff hPassed, Except.pure_eq_ok_iff, and_assoc,
    exists_and_left]

/-- A duration is accepted if its days, its seconds and their sum are in range, and it is
then written as exactly this sum. Otherwise the constructor refuses it. No number leaves 64
bits on the way: days are multiplied before their check, and added after it. -/
theorem durations_exact {days seconds : Option Int64} {value : Json}
    (h : (Components.duration days seconds).GivenBy value) (name : String) :
    ((∃ result, (temporalSchema name .duration).eval value = .ok result) ↔
      InRange (secondsOfDays days) ∧ InRange (secondsAlone seconds) ∧
        InRange (secondsOfDays days + secondsAlone seconds)) ∧
    (∀ result, (temporalSchema name .duration).eval value = .ok result →
      result.toJson = .int (secondsOfDays days + secondsAlone seconds)) ∧
    ((¬ ∃ result, (temporalSchema name .duration).eval value = .ok result) →
      ∃ refusal, (temporalSchema name .duration).eval value = .error (.construction name refusal)) ∧
    (InRange (secondsOfDays days) → (days.getD 0 * 86400).toInt = secondsOfDays days ∧
      (InRange (secondsAlone seconds) → (days.getD 0 * 86400 + seconds.getD 0).toInt =
        secondsOfDays days + secondsAlone seconds)) := by
  refine ⟨?_, ?_, ?_, fun hDays => ⟨Duration.toInt_days hDays, Duration.toInt_sum hDays⟩⟩
  · simp only [eval_duration_eq_ok_iff h, exists_and_left, ← Temporal.exists_duration_iff
      (_ + _)]
    constructor
    · rintro ⟨hDays, hSeconds, _, duration, hSum, -⟩
      exact ⟨hDays, hSeconds, duration, hSum⟩
    · rintro ⟨hDays, hSeconds, duration, hSum⟩
      exact ⟨hDays, hSeconds, _, duration, hSum, rfl⟩
  · intro result hResult
    obtain ⟨-, -, duration, hSum, rfl⟩ := (eval_duration_eq_ok_iff h name result).mp hResult
    rw [← hSum]
    rfl
  · intro hNone
    obtain ⟨args, -, hEval⟩ := Components.eval_eq h name
    change (temporalSchema name .duration).eval value =
      (Constructor.temporal .duration args).mapError (.construction name) at hEval
    rw [hEval] at hNone ⊢
    cases hBuild : Constructor.temporal .duration args with
    | ok result => exact absurd ⟨result, by rw [hBuild]; rfl⟩ hNone
    | error refusal => exact ⟨refusal, rfl⟩

/-- The longest duration is accepted. A day more is not, although the seconds bring
the sum back within range. -/
theorem durations_exact_at_the_limit :
    (∃ result, (temporalSchema "timedelta" .duration).eval
        (.object [("seconds", .int 25975), ("days", .int 106751991167)]) = .ok result ∧
      result.toJson = .int 9223372036854775) ∧
    InRange (secondsOfDays (some 106751991168) + secondsAlone (some (-100000))) ∧
    ∃ refusal, (temporalSchema "timedelta" .duration).eval
      (.object [("days", .int 106751991168), ("seconds", .int (-100000))]) =
        .error (.construction "timedelta" refusal) := by
  obtain ⟨hAccepted, hSum, -⟩ := @durations_exact (some 106751991167) (some 25975)
    (.object [("seconds", .int 25975), ("days", .int 106751991167)])
    ⟨[("seconds", 25975), ("days", 106751991167)], .swap _ _ _, rfl⟩ "timedelta"
  obtain ⟨hRefused, -, hRefusal, -⟩ := @durations_exact (some 106751991168) (some (-100000))
    (.object [("days", .int 106751991168), ("seconds", .int (-100000))])
    ⟨[("days", 106751991168), ("seconds", -100000)], .refl _, rfl⟩ "timedelta"
  refine ⟨?_, by decide, hRefusal fun h => absurd (hRefused.mp h).1 (by decide)⟩
  obtain ⟨result, hResult⟩ := hAccepted.mpr (by decide)
  exact ⟨result, hResult, hSum result hResult⟩

end Strategy

end ToolSchema
