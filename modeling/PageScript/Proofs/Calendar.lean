import PageScript.Moment.Calendar

/-!
# Dates and day numbers

A day number is turned into a date by counting off cycles, years and months, and a date into a
day number by a closed formula. The two agree at every day number, also before the year 0. That
the formula counts days is said by the successor of a date, which knows only the lengths of
months.
-/

namespace PageScript.Calendar

def monthLength (year : Int) (month : Nat) : Nat := (monthLengths year).getD (month - 1) 0

structure Date.Valid (d : Date) : Prop where
  month_pos : 1 ≤ d.month
  month_le : d.month ≤ 12
  day_pos : 1 ≤ d.day
  day_le : d.day ≤ monthLength d.year d.month

/-- The day after a date, by the lengths of the months alone. -/
def Date.next (d : Date) : Date :=
  if d.day < monthLength d.year d.month then ⟨d.year, d.month, d.day + 1⟩
  else if d.month < 12 then ⟨d.year, d.month + 1, 1⟩
  else ⟨d.year + 1, 1, 1⟩

/-- The span that a day falls into starts on or before the day, and the next one after it. -/
theorem countOff_spec {spans : List Nat} {day : Nat} (hd : day < before spans spans.length) :
    ∃ i left, countOff spans day = (i, left) ∧ i < spans.length ∧ left < spans.getD i 0 ∧
      before spans i + left = day := by
  induction spans generalizing day with
  | nil => simp [before] at hd
  | cons length rest ih =>
    rw [countOff]
    by_cases hlt : day < length
    · rw [if_pos hlt]
      exact ⟨0, day, rfl, by simp, by simpa using hlt, by simp [before]⟩
    · rw [if_neg hlt]
      rw [List.length_cons, before] at hd
      have hrest : day - length < before rest rest.length := by omega
      obtain ⟨i, left, heq, hi, hleft, hsum⟩ := ih hrest
      refine ⟨i + 1, left, by rw [heq], by simpa using hi, by simpa using hleft, ?_⟩
      rw [before]
      omega

theorem before_succ {spans : List Nat} {i : Nat} (hi : i < spans.length) :
    before spans (i + 1) = before spans i + spans.getD i 0 := by
  induction spans generalizing i with
  | nil => simp at hi
  | cons length rest ih =>
    cases i with
    | zero => simp [before]
    | succ i =>
      have hrest := ih (Nat.lt_of_succ_lt_succ hi)
      rw [before, before, hrest, List.getD_cons_succ]
      omega

theorem isLeap_iff (year : Int) :
    isLeap year = true ↔ year % 4 = 0 ∧ (year % 100 ≠ 0 ∨ year % 400 = 0) := by
  simp [isLeap]

theorem yearLength_cases (year : Int) :
    (year % 4 = 0 ∧ (year % 100 ≠ 0 ∨ year % 400 = 0)) ∧ yearLength year = 366 ∨
    ¬ (year % 4 = 0 ∧ (year % 100 ≠ 0 ∨ year % 400 = 0)) ∧ yearLength year = 365 := by
  rw [← isLeap_iff, yearLength]
  by_cases hl : isLeap year = true
  · exact .inl ⟨hl, if_pos hl⟩
  · exact .inr ⟨hl, if_neg hl⟩

/-- The closed formula counts off years by their lengths. -/
theorem daysBeforeYear_succ (year : Int) :
    daysBeforeYear (year + 1) = daysBeforeYear year + yearLength year := by
  unfold daysBeforeYear
  rcases yearLength_cases year with ⟨hl, he⟩ | ⟨hl, he⟩ <;> rw [he] <;> omega

theorem daysBeforeYear_cycle (cycle year : Int) :
    daysBeforeYear (400 * cycle + year) = cycleLength * cycle + daysBeforeYear year := by
  unfold daysBeforeYear cycleLength
  omega

theorem isLeap_cycle (cycle year : Int) : isLeap (400 * cycle + year) = isLeap year := by
  rw [Bool.eq_iff_iff, isLeap_iff, isLeap_iff]
  omega

theorem yearLength_cycle (cycle year : Int) : yearLength (400 * cycle + year) = yearLength year := by
  rw [yearLength, yearLength, isLeap_cycle]

theorem cycleYears_getD {year : Nat} (hy : year < 400) :
    cycleYears.getD year 0 = yearLength year := by
  simp [cycleYears, hy]

theorem cycleYears_length : cycleYears.length = 400 := by simp [cycleYears]

theorem before_cycleYears {years : Nat} (hy : years ≤ 400) :
    (before cycleYears years : Int) = daysBeforeYear years := by
  induction years with
  | zero => rfl
  | succ years ih =>
    have hlt : years < cycleYears.length := by
      rw [cycleYears_length]
      omega
    have hstep : daysBeforeYear (years + 1 : Nat) = daysBeforeYear years + yearLength years :=
      daysBeforeYear_succ years
    have hyears := ih (by omega)
    rw [before_succ hlt, cycleYears_getD (by omega)]
    omega

theorem before_all_cycleYears : before cycleYears cycleYears.length = cycleLength := by
  have hall := before_cycleYears (Nat.le_refl 400)
  have hformula : daysBeforeYear (400 : Nat) = cycleLength := by decide
  rw [cycleYears_length]
  omega

theorem before_all_monthLengths (year : Int) :
    before (monthLengths year) (monthLengths year).length = yearLength year := by
  unfold monthLengths yearLength
  cases isLeap year <;> rfl

theorem monthLengths_length (year : Int) : (monthLengths year).length = 12 := rfl

theorem monthLength_eq_getElem {year : Int} {month : Nat}
    (hm : month - 1 < (monthLengths year).length) :
    monthLength year month = (monthLengths year)[month - 1] := by
  rw [monthLength, List.getD_eq_getElem?_getD, List.getElem?_eq_getElem hm, Option.getD_some]

theorem monthLength_bounds {year : Int} {month : Nat} (hm : month - 1 < 12) :
    28 ≤ monthLength year month ∧ monthLength year month ≤ 31 := by
  rw [← monthLengths_length year] at hm
  have hall : ∀ n ∈ monthLengths year, 28 ≤ n ∧ n ≤ 31 := by
    unfold monthLengths
    cases isLeap year <;> decide
  rw [monthLength_eq_getElem hm]
  exact hall _ (List.getElem_mem _)

theorem daysBeforeMonth_succ (year : Int) {month : Nat} (hpos : 1 ≤ month) (hle : month ≤ 12) :
    daysBeforeMonth year (month + 1) = daysBeforeMonth year month + monthLength year month := by
  have hlt : month - 1 < (monthLengths year).length := by
    rw [monthLengths_length]
    omega
  rw [daysBeforeMonth, daysBeforeMonth, monthLength, ← before_succ hlt]
  congr 1
  omega

theorem daysBeforeMonth_all (year : Int) : daysBeforeMonth year 13 = yearLength year :=
  before_all_monthLengths year

theorem firstDay_valid {year : Int} {month : Nat} (hm : 1 ≤ month) (hm' : month ≤ 12) :
    (Date.mk year month 1).Valid := by
  have hlength : 28 ≤ monthLength year month := (monthLength_bounds (by omega)).1
  have hone : 1 ≤ monthLength year month := by omega
  exact ⟨hm, hm', Nat.le_refl 1, hone⟩

theorem Date.Valid.day_lt {d : Date} (hd : d.Valid) : d.day < 32 := by
  have hpos := hd.month_pos
  have hle := hd.month_le
  have hlength : monthLength d.year d.month ≤ 31 := (monthLength_bounds (by omega)).2
  exact Nat.lt_succ_of_le (Nat.le_trans hd.day_le hlength)

theorem Date.Valid.next {d : Date} (hd : d.Valid) : d.next.Valid := by
  obtain ⟨hm, hm', hday, hday'⟩ := hd
  unfold Date.next
  by_cases hinside : d.day < monthLength d.year d.month
  · rw [if_pos hinside]
    exact ⟨hm, hm', Nat.le_add_left 1 d.day, hinside⟩
  rw [if_neg hinside]
  by_cases hlast : d.month < 12
  · rw [if_pos hlast]
    exact firstDay_valid (Nat.le_add_left 1 d.month) hlast
  · rw [if_neg hlast]
    exact firstDay_valid (Nat.le_refl 1) (by decide)

/-- From each day of the calendar to the next the number grows by one. -/
theorem dayNumber_next {d : Date} (hd : d.Valid) : dayNumber d.next = dayNumber d + 1 := by
  obtain ⟨hm, hm', hday, hday'⟩ := hd
  have hmonth := daysBeforeMonth_succ d.year hm hm'
  unfold Date.next
  by_cases hinside : d.day < monthLength d.year d.month
  · rw [if_pos hinside]
    simp only [dayNumber]
    omega
  rw [if_neg hinside]
  by_cases hlast : d.month < 12
  · rw [if_pos hlast]
    simp only [dayNumber, hmonth]
    omega
  · rw [if_neg hlast]
    have hyear := daysBeforeYear_succ d.year
    have hall := daysBeforeMonth_all d.year
    have hnone : daysBeforeMonth (d.year + 1) 1 = 0 := rfl
    rw [show d.month + 1 = 13 from by omega, hall] at hmonth
    simp only [dayNumber, hnone]
    omega

/-- Counting off and the closed formula are inverse, and counting off gives days of the calendar. -/
theorem ofDayNumber_spec (number : Int) :
    (ofDayNumber number).Valid ∧ dayNumber (ofDayNumber number) = number := by
  have hcycle : (number % (cycleLength : Int)).toNat < before cycleYears cycleYears.length := by
    rw [before_all_cycleYears, cycleLength]
    omega
  obtain ⟨yearOfCycle, dayOfYear, hyear, hlt, hday, hsum⟩ := countOff_spec hcycle
  have hlt' : yearOfCycle < 400 := by rwa [cycleYears_length] at hlt
  rw [cycleYears_getD hlt', ← yearLength_cycle (number / (cycleLength : Int)),
    ← before_all_monthLengths] at hday
  obtain ⟨month, day, hmonth, hm, hd, hmsum⟩ := countOff_spec hday
  have hm' : month < 12 := by rwa [monthLengths_length] at hm
  have hdate : ofDayNumber number =
      ⟨400 * (number / (cycleLength : Int)) + yearOfCycle, month + 1, day + 1⟩ := by
    simp only [ofDayNumber, hyear, hmonth]
  rw [hdate]
  refine ⟨⟨by simp, by simp; omega, by simp, ?_⟩, ?_⟩
  · exact Nat.succ_le_of_lt hd
  · have hyears := before_cycleYears (Nat.le_of_lt hlt')
    have hformula := daysBeforeYear_cycle (number / (cycleLength : Int)) yearOfCycle
    have hmod := Int.emod_add_mul_ediv number cycleLength
    have hnonneg : 0 ≤ number % (cycleLength : Int) := by
      rw [cycleLength]
      omega
    simp only [dayNumber, daysBeforeMonth, Nat.add_sub_cancel, hformula]
    omega

end PageScript.Calendar
