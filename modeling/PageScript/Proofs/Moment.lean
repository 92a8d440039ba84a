import PageScript.Moment.Basic
import PageScript.Proofs.Calendar

/-!
# Moments denote instants

`Moment.at?` gives a moment exactly in the calendar's range and for offsets of less than a day,
and the fields of that moment are the local date and time of the instant. The checked product
never turns away an offset that is short enough, and fields of eight bits lose nothing.
-/

namespace PageScript.Moment

open Calendar (Date dayNumber epochDay ofDayNumber ofDayNumber_spec)

theorem holds_signed32_iff (n : Int) :
    (IntType.signed 32).Holds n ↔ -2147483648 ≤ n ∧ n ≤ 2147483647 := Iff.rfl

theorem zoneSeconds?_of_short {offsetMinutes : Int} (hshort : offsetMinutes.natAbs < 1440) :
    zoneSeconds? offsetMinutes = some (offsetMinutes * 60) := by
  have hfits : (IntType.signed 32).Holds (offsetMinutes * 60) := by
    rw [holds_signed32_iff]
    omega
  rw [zoneSeconds?, IntType.mul?, if_pos hfits, Option.bind_eq_bind, Option.bind_some,
    if_pos (by omega)]

/-- A product beyond 32 bits is of an offset that is too long anyway. -/
theorem zoneSeconds?_of_long {offsetMinutes : Int} (hlong : ¬ offsetMinutes.natAbs < 1440) :
    zoneSeconds? offsetMinutes = none := by
  rw [zoneSeconds?, IntType.mul?]
  by_cases hfits : (IntType.signed 32).Holds (offsetMinutes * 60)
  · rw [if_pos hfits, Option.bind_eq_bind, Option.bind_some, if_neg (by omega)]
  · rw [if_neg hfits]
    rfl

theorem lt_tooLate_iff (epochMillis : Int) :
    epochMillis < tooLate ↔ epochMillis ≤ startOfDay ⟨262142, 12, 31⟩ + 86399999 := by
  have hnext : tooLate = startOfDay ⟨262142, 12, 31⟩ + 86400000 := by decide
  omega

theorem at?_eq_some_iff {epochMillis offsetMinutes : Int} {m : Moment} :
    at? epochMillis offsetMinutes = some m ↔
      (offsetMinutes.natAbs < 1440 ∧ startOfDay ⟨-262143, 1, 1⟩ ≤ epochMillis ∧
        epochMillis ≤ startOfDay ⟨262142, 12, 31⟩ + 86399999) ∧
      ofInstant epochMillis (offsetMinutes * 60) = m := by
  rw [← lt_tooLate_iff, at?]
  by_cases hshort : offsetMinutes.natAbs < 1440
  · rw [zoneSeconds?_of_short hshort, Option.bind_eq_bind, Option.bind_some,
      Option.ite_none_right_eq_some, Option.some_inj]
    exact and_congr_left fun _ => (and_iff_right hshort).symm
  · rw [zoneSeconds?_of_long hshort]
    exact iff_of_false nofun fun hm => hshort hm.1.1

theorem byte_of_lt {n : Nat} (hn : n < 256) : byte n = n := Nat.mod_eq_of_lt hn

/-- The fields are those of a day of the calendar and of a time of day, and denote the instant. -/
theorem ofInstant_denotes (epochMillis offsetSeconds : Int) :
    let m := ofInstant epochMillis offsetSeconds
    (Date.mk m.year m.month m.day).Valid ∧ m.hour < 24 ∧ m.minute < 60 ∧ m.second < 60 ∧
      (dayNumber ⟨m.year, m.month, m.day⟩ - epochDay) * 86400 + m.hour * 3600 + m.minute * 60 +
        m.second = epochMillis / 1000 + offsetSeconds := by
  let seconds := epochMillis / 1000 + offsetSeconds
  let date := ofDayNumber (seconds / 86400 + epochDay)
  let secondOfDay := (seconds % 86400).toNat
  obtain ⟨hvalid, hnumber⟩ := ofDayNumber_spec (seconds / 86400 + epochDay)
  have hmonth : byte date.month = date.month :=
    byte_of_lt (Nat.lt_of_le_of_lt hvalid.month_le (by decide))
  have hday : byte date.day = date.day := byte_of_lt (Nat.lt_trans hvalid.day_lt (by decide))
  have hlt : secondOfDay < 86400 := by omega
  have hhour : byte (secondOfDay / 3600) = secondOfDay / 3600 := byte_of_lt (by omega)
  have hminute : byte (secondOfDay / 60 % 60) = secondOfDay / 60 % 60 := byte_of_lt (by omega)
  have hsecond : byte (secondOfDay % 60) = secondOfDay % 60 := byte_of_lt (by omega)
  intro m
  have hm : m = ⟨epochMillis, date.year, date.month, date.day, secondOfDay / 3600,
      secondOfDay / 60 % 60, secondOfDay % 60, offsetSeconds.tdiv 60⟩ := by
    rw [← hmonth, ← hday, ← hhour, ← hminute, ← hsecond]
    rfl
  rw [hm]
  refine ⟨hvalid, ?_, ?_, ?_, ?_⟩
  · change secondOfDay / 3600 < 24
    omega
  · change secondOfDay / 60 % 60 < 60
    omega
  · change secondOfDay % 60 < 60
    omega
  · change (dayNumber date - epochDay) * 86400 + (secondOfDay / 3600 : Nat) * 3600 +
      (secondOfDay / 60 % 60 : Nat) * 60 + (secondOfDay % 60 : Nat) = seconds
    rw [hnumber]
    omega

/--
There is a moment exactly for offsets of less than a day and instants of the calendar's range.
Its fields are a day of the calendar and a time of day, it keeps the instant and the offset, and
the days from 1 January 1970 with the time of day are the local seconds. Days are counted one
by one along the calendar.
-/
theorem fields_denote_instant (epochMillis offsetMinutes : Int) :
    ((at? epochMillis offsetMinutes).isSome = true ↔
      offsetMinutes.natAbs < 1440 ∧ startOfDay ⟨-262143, 1, 1⟩ ≤ epochMillis ∧
        epochMillis ≤ startOfDay ⟨262142, 12, 31⟩ + 86399999) ∧
    (∀ m, at? epochMillis offsetMinutes = some m →
      (Date.mk m.year m.month m.day).Valid ∧ m.hour < 24 ∧ m.minute < 60 ∧ m.second < 60 ∧
      m.epochMillis = epochMillis ∧ m.offsetMinutes = offsetMinutes ∧
      (dayNumber ⟨m.year, m.month, m.day⟩ - epochDay) * 86400 + m.hour * 3600 + m.minute * 60 +
        m.second = epochMillis / 1000 + 60 * offsetMinutes) ∧
    (dayNumber ⟨1970, 1, 1⟩ = epochDay ∧
      ∀ d : Date, d.Valid → d.next.Valid ∧ dayNumber d.next = dayNumber d + 1) := by
  refine ⟨?_, ?_, rfl, fun d hd => ⟨hd.next, Calendar.dayNumber_next hd⟩⟩
  · rw [Option.isSome_iff_exists]
    simp only [at?_eq_some_iff, exists_and_left, exists_eq', and_true]
  · intro m hm
    obtain ⟨-, rfl⟩ := at?_eq_some_iff.mp hm
    obtain ⟨hvalid, hhour, hminute, hsecond, hinstant⟩ :=
      ofInstant_denotes epochMillis (offsetMinutes * 60)
    have hoffset : (offsetMinutes * 60).tdiv 60 = offsetMinutes :=
      Int.mul_tdiv_cancel offsetMinutes (by decide)
    refine ⟨hvalid, hhour, hminute, hsecond, rfl, hoffset, ?_⟩
    rw [hinstant, Int.mul_comm 60 offsetMinutes]

/-- The last instant before 1970, seen from where it is still the day before, and a leap day. -/
theorem fields_denote_instant_west :
    (∃ m, at? (-1) (-1439) = some m ∧ (Date.mk m.year m.month m.day).Valid ∧
      (dayNumber ⟨m.year, m.month, m.day⟩ - epochDay) * 86400 + m.hour * 3600 + m.minute * 60 +
        m.second = -1 + 60 * -1439) ∧
    (Date.mk (-4) 2 29).Valid ∧ dayNumber (Date.mk (-4) 2 29).next = dayNumber ⟨-4, 2, 29⟩ + 1 := by
  obtain ⟨hsome, hfields, -, hnext⟩ := fields_denote_instant (-1) (-1439)
  obtain ⟨m, hm⟩ := Option.isSome_iff_exists.mp (hsome.mpr (by decide))
  obtain ⟨hvalid, -, -, -, -, -, hinstant⟩ := hfields m hm
  have hleap : (Date.mk (-4) 2 29).Valid := ⟨by decide, by decide, by decide, by decide⟩
  exact ⟨⟨m, hm, hvalid, hinstant⟩, hleap, (hnext _ hleap).2⟩

end PageScript.Moment
