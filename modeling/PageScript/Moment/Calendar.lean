/-!
# The proleptic Gregorian calendar

Days are numbered from 1 January of the year 0. The calendar repeats after 400 years, so a day
number is split into cycles, years of the cycle and months of the year by counting off their
lengths.
-/

namespace PageScript.Calendar

/-- A day by year, month and day of the month, the latter two from one. -/
structure Date where
  year : Int
  month : Nat
  day : Nat
deriving DecidableEq, Repr

def isLeap (year : Int) : Bool := year % 4 == 0 && (year % 100 != 0 || year % 400 == 0)

def yearLength (year : Int) : Nat := if isLeap year then 366 else 365

def monthLengths (year : Int) : List Nat :=
  [31, if isLeap year then 29 else 28, 31, 30, 31, 30, 31, 31, 30, 31, 30, 31]

def cycleLength : Nat := 146097

/-- The lengths of the years of a cycle. -/
def cycleYears : List Nat := (List.range 400).map fun (y : Nat) => yearLength y

/-- Which of consecutive spans a day falls into, and how far. -/
def countOff : List Nat → Nat → Nat × Nat
  | [], day => (0, day)
  | length :: rest, day =>
    if day < length then (0, day)
    else
      let (i, left) := countOff rest (day - length)
      (i + 1, left)

/-- How many days come before one of consecutive spans. -/
def before : List Nat → Nat → Nat
  | length :: rest, i + 1 => length + before rest i
  | _, _ => 0

def ofDayNumber (number : Int) : Date :=
  let cycle := number / (cycleLength : Int)
  let (yearOfCycle, dayOfYear) := countOff cycleYears (number % (cycleLength : Int)).toNat
  let year := 400 * cycle + yearOfCycle
  let (month, day) := countOff (monthLengths year) dayOfYear
  ⟨year, month + 1, day + 1⟩

/-- Days from 1 January of the year 0 to 1 January of a year. -/
def daysBeforeYear (year : Int) : Int :=
  365 * year + (year + 3) / 4 - (year + 99) / 100 + (year + 399) / 400

/-- Days from the start of a year to the start of a month of it. -/
def daysBeforeMonth (year : Int) (month : Nat) : Nat := before (monthLengths year) (month - 1)

/-- The number of a day. -/
def dayNumber (d : Date) : Int :=
  daysBeforeYear d.year + daysBeforeMonth d.year d.month + d.day - 1

def epochDay : Int := dayNumber ⟨1970, 1, 1⟩

end PageScript.Calendar
