import ToolSchema.Value.Call

/-!
The constructors of dates, times of day and durations from integer arguments.
-/

namespace ToolSchema

namespace Temporal

/-- The cause of refusing an integer that does not fit. -/
def misfit (tooSmall : Bool) : Refusal :=
  .of (if tooSmall then "number too small to fit in target type"
    else "number too large to fit in target type")

/-- The integer within bounds, or a refusal with the given message. -/
def fit (low high : Int) (message : String) (n : Int64) : Except Refusal Int :=
  if n.toInt < low then .error ((misfit true).within message)
  else if high < n.toInt then .error ((misfit false).within message)
  else .ok n.toInt

/-- A number that is counted from zero, in 32 bits. -/
def fitNat (message : String) (n : Int64) : Except Refusal Nat :=
  (fit 0 0xFFFFFFFF message n).map Int.toNat

/-- The date of the arguments `year`, `month` and `day`. -/
def buildDate (args : Arguments) : Except Refusal Date := do
  let year ← fit Int32.minValue.toInt Int32.maxValue.toInt "year out of range" (← args.int "year")
  let month ← fitNat "month out of range" (← args.int "month")
  let day ← fitNat "day out of range" (← args.int "day")
  if h : isDate year month day then return ⟨year, month, day, h⟩
  else .error (.of ("invalid date " ++ zeroPadded 4 year ++ "-" ++ zeroPadded 2 month ++ "-" ++
    zeroPadded 2 day))

/-- One part of a time of day. A part that is not given is zero. -/
def part (args : Arguments) (name : String) : Except Refusal Nat := do
  let n ← args.intOr name 0
  fitNat (name ++ " out of range: " ++ toString n.toInt) n

/-- The time of day of the arguments `hour`, `minute` and `second`. -/
def buildTime (args : Arguments) : Except Refusal TimeOfDay := do
  let hour ← part args "hour"
  let minute ← part args "minute"
  let second ← part args "second"
  if h : isTimeOfDay hour minute second then return ⟨hour, minute, second, h⟩
  else .error (.of ("invalid time " ++ zeroPadded 2 hour ++ ":" ++ zeroPadded 2 minute ++ ":" ++
    zeroPadded 2 second))

/-- A duration of so many seconds, or a refusal with the given message. -/
def durationOf (message : String) (seconds : Int) : Except Refusal Duration :=
  if h : isDuration seconds then .ok ⟨seconds, h⟩ else .error (.of message)

/-- The duration of the arguments `days` and `seconds`. The two parts and their sum are checked one
after the other. -/
def buildDuration (args : Arguments) : Except Refusal Duration := do
  let days ← args.intOr "days" 0
  let days ← durationOf "days out of range" (days.toInt * 86400)
  let seconds ← args.intOr "seconds" 0
  let seconds ← durationOf "seconds out of range" seconds.toInt
  durationOf "timedelta out of range" (days.seconds + seconds.seconds)

end Temporal

/-- The constructor of the values of one kind. -/
def Constructor.temporal (kind : TemporalKind) : Constructor := fun args => do
  match kind with
  | .date => return .temporal (.date (← Temporal.buildDate args))
  | .dateTime =>
    let date ← Temporal.buildDate args
    return .temporal (.dateTime date (← Temporal.buildTime args))
  | .time => return .temporal (.time (← Temporal.buildTime args))
  | .duration => return .temporal (.duration (← Temporal.buildDuration args))

end ToolSchema
