import PageScript.Integer
import PageScript.Moment.Calendar

/-!
# Moments

A moment is an instant in milliseconds since the start of 1970 together with local calendar
fields. The fields of a moment made by `Moment.ofInstant` denote its instant in its zone.
-/

namespace PageScript

/-- An instant and its local date and time. -/
structure Moment where
  epochMillis : Int
  year : Int
  month : Nat
  day : Nat
  hour : Nat
  minute : Nat
  second : Nat
  offsetMinutes : Int
deriving DecidableEq, Repr

namespace Moment

/-- Decimal digits of an integer, after a minus sign if it is negative. -/
def intText (n : Int) : String := if n < 0 then "-" ++ n.natAbs.repr else n.natAbs.repr

/-- A natural number in at least two digits. -/
def twoDigits (n : Nat) : String := if n < 10 then "0" ++ n.repr else n.repr

/-- Day, month and year with points between them. -/
def dateText (m : Moment) : String := m.day.repr ++ "." ++ m.month.repr ++ "." ++ intText m.year

/-- Hour, minute and second with points between them, the latter two in two digits. -/
def timeText (m : Moment) : String :=
  m.hour.repr ++ "." ++ twoDigits m.minute ++ "." ++ twoDigits m.second

def fullText (m : Moment) : String := m.dateText ++ " " ++ m.timeText

def inspect (m : Moment) : String :=
  "Moment \x7b epoch_millis: " ++ intText m.epochMillis ++
    ", components: DateComponents \x7b year: " ++ intText m.year ++ ", month: " ++ m.month.repr ++
    ", day: " ++ m.day.repr ++ ", hour: " ++ m.hour.repr ++ ", minute: " ++ m.minute.repr ++
    ", second: " ++ m.second.repr ++ ", offset_minutes: " ++ intText m.offsetMinutes ++ " \x7d \x7d"

/-- What a field of eight bits keeps of a number. -/
def byte (n : Nat) : Nat := n % 256

/-- The moment of an instant where local time is so many seconds ahead. -/
def ofInstant (epochMillis offsetSeconds : Int) : Moment :=
  let seconds := epochMillis / 1000 + offsetSeconds
  let date := Calendar.ofDayNumber (seconds / 86400 + Calendar.epochDay)
  let secondOfDay := (seconds % 86400).toNat
  { epochMillis
    year := date.year
    month := byte date.month
    day := byte date.day
    hour := byte (secondOfDay / 3600)
    minute := byte (secondOfDay / 60 % 60)
    second := byte (secondOfDay % 60)
    offsetMinutes := offsetSeconds.tdiv 60 }

/-- The first millisecond of a day, since the start of 1970. -/
def startOfDay (d : Calendar.Date) : Int := (Calendar.dayNumber d - Calendar.epochDay) * 86400000

/-- The first instant that has a moment. -/
def earliest : Int := startOfDay ⟨-262143, 1, 1⟩

/-- The first instant, after all that have a moment, that has none. -/
def tooLate : Int := startOfDay ⟨262143, 1, 1⟩

/-- The seconds in a number of minutes, in 32 bits, if they are less than a day either way. -/
def zoneSeconds? (offsetMinutes : Int) : Option Int := do
  let seconds ← (IntType.signed 32).mul? offsetMinutes 60
  if -86400 < seconds ∧ seconds < 86400 then some seconds else none

/--
The moment of an instant where local time is so many minutes ahead, if that is less than a
day and the instant is in the calendar's range.
-/
def at? (epochMillis offsetMinutes : Int) : Option Moment := do
  let zone ← zoneSeconds? offsetMinutes
  if earliest ≤ epochMillis ∧ epochMillis < tooLate then some (ofInstant epochMillis zone)
  else none

/-- Whether the instant and offset of a moment alone determine it. -/
def isDetermined (m : Moment) : Bool := at? m.epochMillis m.offsetMinutes == some m

end Moment

end PageScript
