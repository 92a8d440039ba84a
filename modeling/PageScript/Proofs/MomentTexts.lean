import PageScript.Proofs.Digits
import PageScript.Proofs.Lists
import PageScript.Proofs.Moment

/-!
# Texts of moments

Day, month and hour are written in as many digits as they have, and the year may be negative, so
no field has a fixed place in the text. Still moments with different fields never have the same
text: a field ends at the mark behind it, which does not stand inside the field. Nothing is
assumed of the fields.

Main statement: moments of one zone have the same text exactly in the same second.
-/

namespace PageScript.Moment

theorem toList_intText (n : Int) :
    (intText n).toList = (if n < 0 then ['-'] else []) ++ Nat.toDigits 10 n.natAbs := by
  rw [intText]
  split
  · rw [String.toList_append, Nat.toList_repr]
    rfl
  · exact Nat.toList_repr

theorem notMem_intText {mark : Char} (hmark : mark.isDigit = false) (hminus : mark ≠ '-')
    (n : Int) : mark ∉ (intText n).toList := by
  rw [toList_intText, List.mem_append, not_or]
  refine ⟨?_, notMem_toDigits hmark _⟩
  split
  · simpa using hminus
  · exact List.not_mem_nil

/-- A minus sign is no digit, so a negative number has the text of no other one. -/
theorem intText_inj {m n : Int} : (intText m).toList = (intText n).toList ↔ m = n := by
  refine ⟨fun h => ?_, fun h => h ▸ rfl⟩
  have hsigns : ∀ j k : Nat, '-' :: Nat.toDigits 10 j ≠ Nat.toDigits 10 k := by
    intro j k he
    exact notMem_toDigits rfl k (he ▸ List.mem_cons_self)
  rw [toList_intText, toList_intText] at h
  by_cases hm : m < 0 <;> by_cases hn : n < 0
  · rw [if_pos hm, if_pos hn, List.append_cancel_left_eq, toDigits_inj] at h
    omega
  · rw [if_pos hm, if_neg hn] at h
    exact absurd h (hsigns _ _)
  · rw [if_neg hm, if_pos hn] at h
    exact absurd h.symm (hsigns _ _)
  · rw [if_neg hm, if_neg hn, List.append_cancel_left_eq, toDigits_inj] at h
    omega

theorem toList_twoDigits (n : Nat) :
    (twoDigits n).toList = (if n < 10 then ['0'] else []) ++ Nat.toDigits 10 n := by
  rw [twoDigits]
  split
  · rw [String.toList_append, Nat.toList_repr]
    rfl
  · exact Nat.toList_repr

theorem notMem_twoDigits {mark : Char} (hmark : mark.isDigit = false) (n : Nat) :
    mark ∉ (twoDigits n).toList := by
  rw [toList_twoDigits, List.mem_append, not_or]
  refine ⟨?_, notMem_toDigits hmark _⟩
  split
  · rw [List.mem_singleton]
    rintro rfl
    cases hmark
  · exact List.not_mem_nil

/-- A zero in front does not change the value of the digits, however many there are. -/
theorem ofDigitChars_twoDigits (n : Nat) : Nat.ofDigitChars 10 (twoDigits n).toList 0 = n := by
  rw [toList_twoDigits]
  split
  · exact Nat.ofDigitChars_ten_toDigits
  · exact Nat.ofDigitChars_ten_toDigits

theorem twoDigits_inj {m n : Nat} : (twoDigits m).toList = (twoDigits n).toList ↔ m = n := by
  refine ⟨fun h => ?_, fun h => h ▸ rfl⟩
  rw [← ofDigitChars_twoDigits m, h, ofDigitChars_twoDigits]

theorem toList_fullText (m : Moment) :
    m.fullText.toList =
      Nat.toDigits 10 m.day ++ '.' :: (Nat.toDigits 10 m.month ++ '.' ::
        ((intText m.year).toList ++ ' ' :: (Nat.toDigits 10 m.hour ++ '.' ::
          ((twoDigits m.minute).toList ++ '.' :: (twoDigits m.second).toList)))) := by
  simp [fullText, dateText, timeText]

/-- The text is read from the left, each field up to the mark behind it. -/
theorem fullText_inj {m n : Moment} :
    m.fullText = n.fullText ↔ m.year = n.year ∧ m.month = n.month ∧ m.day = n.day ∧
      m.hour = n.hour ∧ m.minute = n.minute ∧ m.second = n.second := by
  have hpoint : '.'.isDigit = false := rfl
  have hblank : ' '.isDigit = false := rfl
  have hyear (k : Moment) : ' ' ∉ (intText k.year).toList := notMem_intText hblank (by decide) _
  rw [← String.toList_inj, toList_fullText, toList_fullText,
    append_mark_inj (notMem_toDigits hpoint _) (notMem_toDigits hpoint _), toDigits_inj,
    append_mark_inj (notMem_toDigits hpoint _) (notMem_toDigits hpoint _), toDigits_inj,
    append_mark_inj (hyear m) (hyear n), intText_inj,
    append_mark_inj (notMem_toDigits hpoint _) (notMem_toDigits hpoint _), toDigits_inj,
    append_mark_inj (notMem_twoDigits hpoint _) (notMem_twoDigits hpoint _), twoDigits_inj,
    twoDigits_inj]
  constructor
  · rintro ⟨hday, hmonth, hyears, htime⟩
    exact ⟨hyears, hmonth, hday, htime⟩
  · rintro ⟨hyears, hmonth, hday, htime⟩
    exact ⟨hday, hmonth, hyears, htime⟩

/-- The fields that are shown depend on no more of an instant than its second. -/
theorem fullText_ofInstant_congr {e₁ e₂ : Int} (h : e₁ / 1000 = e₂ / 1000) (offsetSeconds : Int) :
    (ofInstant e₁ offsetSeconds).fullText = (ofInstant e₂ offsetSeconds).fullText := by
  have hsame : ofInstant e₁ offsetSeconds =
      { ofInstant e₂ offsetSeconds with epochMillis := e₁ } := by
    rw [ofInstant, ofInstant, h]
  rw [hsame]
  rfl

theorem fullText_ofInstant_inj {e₁ e₂ offsetSeconds : Int} :
    (ofInstant e₁ offsetSeconds).fullText = (ofInstant e₂ offsetSeconds).fullText ↔
      e₁ / 1000 = e₂ / 1000 := by
  refine ⟨fun h => ?_, fun h => fullText_ofInstant_congr h offsetSeconds⟩
  obtain ⟨-, -, -, -, h₁⟩ := ofInstant_denotes e₁ offsetSeconds
  obtain ⟨-, -, -, -, h₂⟩ := ofInstant_denotes e₂ offsetSeconds
  obtain ⟨hyear, hmonth, hday, hhour, hminute, hsecond⟩ := fullText_inj.mp h
  -- Fields that are the same denote the same local seconds.
  rw [hyear, hmonth, hday, hhour, hminute, hsecond, h₂] at h₁
  omega

/--
Moments of one zone have the same text exactly if their instants are in the same second, counted
downwards also before 1970. Moments with any fields at all, also with ones that no calendar has,
have the same text exactly if all six fields that are shown are the same.
-/
theorem fullText_tells_seconds (offsetMinutes : Int) :
    (∀ (e₁ e₂ : Int) (m₁ m₂ : Moment), at? e₁ offsetMinutes = some m₁ →
      at? e₂ offsetMinutes = some m₂ → (m₁.fullText = m₂.fullText ↔ e₁ / 1000 = e₂ / 1000)) ∧
    ∀ m₁ m₂ : Moment, m₁.fullText = m₂.fullText ↔
      m₁.year = m₂.year ∧ m₁.month = m₂.month ∧ m₁.day = m₂.day ∧ m₁.hour = m₂.hour ∧
        m₁.minute = m₂.minute ∧ m₁.second = m₂.second := by
  refine ⟨?_, fun m₁ m₂ => fullText_inj⟩
  intro e₁ e₂ m₁ m₂ h₁ h₂
  obtain ⟨-, rfl⟩ := at?_eq_some_iff.mp h₁
  obtain ⟨-, rfl⟩ := at?_eq_some_iff.mp h₂
  exact fullText_ofInstant_inj

/-- The first and the last instant of the last second of 1969, and the instant after it. -/
theorem fullText_tells_seconds_atEpoch :
    ∃ m₁ m₂ m₃, at? (-1000) 120 = some m₁ ∧ at? (-1) 120 = some m₂ ∧ at? 0 120 = some m₃ ∧
      m₁.fullText = m₂.fullText ∧ m₂.fullText ≠ m₃.fullText := by
  obtain ⟨hinstants, -⟩ := fullText_tells_seconds 120
  refine ⟨_, _, _, rfl, rfl, rfl, ?_, ?_⟩
  · exact (hinstants (-1000) (-1) _ _ rfl rfl).mpr (by decide)
  · intro h
    exact absurd ((hinstants (-1) 0 _ _ rfl rfl).mp h) (by decide)

end PageScript.Moment
