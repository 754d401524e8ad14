/-!
Dates, times of day and durations: which of them exist, and how they are written.
-/

namespace ToolSchema

/-- A number with leading zeros up to a width. A minus sign counts as part of the width. -/
def zeroPadded (width : Nat) (n : Int) : String :=
  let digits := toString n.natAbs
  if n < 0 then "-" ++ "".pushn '0' (width - 1 - digits.length) ++ digits
  else "".pushn '0' (width - digits.length) ++ digits

/-- The Gregorian calendar, extended to all years: every fourth year is a leap year, but of the
full centuries only every fourth. -/
def isLeapYear (year : Int) : Bool := year % 4 == 0 && (year % 100 != 0 || year % 400 == 0)

def daysInMonth (year : Int) (month : Nat) : Nat :=
  match month with
  | 1 | 3 | 5 | 7 | 8 | 10 | 12 => 31
  | 4 | 6 | 9 | 11 => 30
  | 2 => if isLeapYear year then 29 else 28
  | _ => 0

/-- The day exists, in a year within reach. -/
def isDate (year : Int) (month day : Nat) : Bool :=
  decide (-262143 ≤ year) && decide (year ≤ 262142) && decide (1 ≤ day) &&
    decide (day ≤ daysInMonth year month)

structure Date where
  year : Int
  month : Nat
  day : Nat
  valid : isDate year month day = true
  deriving DecidableEq

/-- The second of the day exists. There are no leap seconds. -/
def isTimeOfDay (hour minute second : Nat) : Bool :=
  decide (hour < 24) && decide (minute < 60) && decide (second < 60)

structure TimeOfDay where
  hour : Nat
  minute : Nat
  second : Nat
  valid : isTimeOfDay hour minute second = true
  deriving DecidableEq

/-- The largest number of seconds of a duration, in both directions. -/
def maxSeconds : Int := 9223372036854775

def isDuration (seconds : Int) : Bool := decide (-maxSeconds ≤ seconds) && decide (seconds ≤ maxSeconds)

structure Duration where
  seconds : Int
  valid : isDuration seconds = true
  deriving DecidableEq

/-- The year has four digits. Beyond them it has a sign, and at least four digits. -/
def yearText (year : Int) : String :=
  if year < 0 then zeroPadded 5 year
  else if 9999 < year then "+" ++ zeroPadded 4 year
  else zeroPadded 4 year

def Date.text (date : Date) : String :=
  yearText date.year ++ "-" ++ zeroPadded 2 date.month ++ "-" ++ zeroPadded 2 date.day

def TimeOfDay.text (time : TimeOfDay) : String :=
  zeroPadded 2 time.hour ++ ":" ++ zeroPadded 2 time.minute ++ ":" ++ zeroPadded 2 time.second

/-- The kinds of values that stand for dates, times and durations. -/
inductive TemporalKind
  | date
  | dateTime
  | time
  | duration
  deriving DecidableEq

def TemporalKind.name : TemporalKind → String
  | .date => "date"
  | .dateTime => "datetime"
  | .time => "time"
  | .duration => "timedelta"

def TemporalKind.all : List TemporalKind := [.date, .dateTime, .time, .duration]

inductive Temporal
  | date (date : Date)
  | dateTime (date : Date) (time : TimeOfDay)
  | time (time : TimeOfDay)
  | duration (duration : Duration)
  deriving DecidableEq

namespace Temporal

def kind : Temporal → TemporalKind
  | .date _ => .date
  | .dateTime _ _ => .dateTime
  | .time _ => .time
  | .duration _ => .duration

/-- The value as it is shown for inspection. -/
def inspect : Temporal → String
  | .date d => d.text
  | .dateTime d t => d.text ++ "T" ++ t.text
  | .time t => t.text
  | .duration d => "TimeDelta \x7b secs: " ++ toString d.seconds ++ ", nanos: 0 \x7d"

end Temporal

end ToolSchema
