import PageScript.Proofs.NumberTexts

/-!
# Numbers for inspection

For inspection a number is written with the sign of its zero, and with a fraction or an exponent, or
both. Its text has the parts of a `NumberText`, of which only digits are asked here: where each part
ends shows at the next character. The parts stand for a value that is rounded to the number. So
numbers have different texts, except that every NaN has the same.
-/

namespace PageScript

open BinaryFormat (binary64)

namespace NumberText

def minus (negative : Bool) : List Char := if negative then ['-'] else []

/-- An exponent has a sign only if it is negative. -/
def bareScaled : Option (Bool × List Char) → List Char
  | none => []
  | some (negative, digits) => 'e' :: (minus negative ++ digits)

/-- The text for inspection. -/
def inspected (t : NumberText) : List Char :=
  minus t.negative ++ (t.whole ++ (pointed t.fraction ++ bareScaled t.exponent))

/-- The parts are made of digits, and the whole part is not missing. -/
structure Digital (t : NumberText) : Prop where
  whole_ne_nil : t.whole ≠ []
  whole : ∀ c ∈ t.whole, c.isDigit = true
  fraction : ∀ c ∈ t.fraction, c.isDigit = true
  exponent : ∀ negative digits, t.exponent = some (negative, digits) →
    ∀ c ∈ digits, c.isDigit = true

theorem Proper.digital {t : NumberText} (ht : t.Proper) : t.Digital where
  whole_ne_nil := ht.whole_ne_nil
  whole := ht.whole_digits
  fraction := ht.fraction_digits
  exponent negative digits h := (ht.exponent negative digits h).2.2.1

/-- Before a digit, a sign cannot be taken for anything else. -/
theorem minus_append_inj {s s' : Bool} {a b : List Char} (ha : ∀ c ∈ a.head?, c.isDigit = true)
    (hb : ∀ c ∈ b.head?, c.isDigit = true) (h : minus s ++ a = minus s' ++ b) : s = s' ∧ a = b := by
  cases s <;> cases s'
  · exact ⟨rfl, h⟩
  · obtain rfl : a = '-' :: b := h
    exact absurd (ha '-' rfl) (by decide)
  · obtain rfl : '-' :: a = b := h
    exact absurd (hb '-' rfl) (by decide)
  · exact ⟨rfl, (List.cons.inj h).2⟩

theorem bareScaled_inj {t u : NumberText} (ht : t.Digital) (hu : u.Digital)
    (h : bareScaled t.exponent = bareScaled u.exponent) : t.exponent = u.exponent := by
  have hdigits {t : NumberText} (ht : t.Digital) {negative digits}
      (he : t.exponent = some (negative, digits)) : ∀ c ∈ digits.head?, c.isDigit = true :=
    fun c hc => ht.exponent negative digits he c (List.mem_of_mem_head? hc)
  cases he : t.exponent with
  | none =>
    cases he' : u.exponent with
    | none => rfl
    | some q =>
      rw [he, he'] at h
      cases h
  | some p =>
    cases he' : u.exponent with
    | none =>
      rw [he, he'] at h
      cases h
    | some q =>
      rw [he, he'] at h
      obtain ⟨hsign, hrest⟩ := minus_append_inj (hdigits ht he) (hdigits hu he') (List.cons.inj h).2
      rw [Prod.ext hsign hrest]

theorem head?_bareScaled {exponent : Option (Bool × List Char)} :
    ∀ c ∈ (bareScaled exponent).head?, c = 'e' := by
  cases exponent with
  | none => exact fun c hc => by cases hc
  | some p => exact fun c hc => (Option.some.inj hc).symm

theorem Digital.exists_digit {t : NumberText} (ht : t.Digital) :
    ∃ c cs, c.isDigit = true ∧ t.whole = c :: cs := by
  obtain ⟨c, cs, hwhole⟩ := List.exists_cons_of_ne_nil ht.whole_ne_nil
  exact ⟨c, cs, ht.whole c (by rw [hwhole]; exact List.mem_cons_self), hwhole⟩

theorem Digital.head?_whole {t : NumberText} (ht : t.Digital) (rest : List Char) :
    ∀ c ∈ (t.whole ++ rest).head?, c.isDigit = true := by
  obtain ⟨d, ds, hd, hwhole⟩ := ht.exists_digit
  rw [hwhole]
  exact fun c hc => Option.some.inj hc ▸ hd

/-- Such a text is read in one way only. -/
theorem Digital.inspected_inj {t u : NumberText} (ht : t.Digital) (hu : u.Digital)
    (h : t.inspected = u.inspected) : t = u := by
  have hmark (t : NumberText) :
      ∀ c ∈ (pointed t.fraction ++ bareScaled t.exponent).head?, c.isDigit = false := fun c hc => by
    rcases head?_pointed_append head?_bareScaled c hc with rfl | rfl <;> rfl
  obtain ⟨hnegative, h⟩ := minus_append_inj (ht.head?_whole _) (hu.head?_whole _) h
  obtain ⟨hwhole, h⟩ := span_digits_inj ht.whole hu.whole (hmark t) (hmark u) h
  obtain ⟨hfraction, h⟩ :=
    pointed_append_inj ht.fraction hu.fraction head?_bareScaled head?_bareScaled h
  exact NumberText.ext hnegative hwhole hfraction (bareScaled_inj ht hu h)

theorem mem_minus {s : Bool} {c : Char} (hc : c ∈ minus s) : c = '-' := by
  cases s
  · exact absurd hc List.not_mem_nil
  · exact List.mem_singleton.mp hc

theorem Digital.mem_inspected {t : NumberText} (ht : t.Digital) {c : Char} (hc : c ∈ t.inspected) :
    c.isDigit = true ∨ c ∈ ['-', '.', 'e'] := by
  simp only [inspected, List.mem_append] at hc
  rcases hc with hsign | hwhole | hfraction | hexponent
  · exact .inr (by simp [mem_minus hsign])
  · exact .inl (ht.whole c hwhole)
  · rw [pointed] at hfraction
    split at hfraction
    · exact absurd hfraction List.not_mem_nil
    · rcases List.mem_cons.mp hfraction with rfl | hfraction
      · exact .inr (by simp)
      · exact .inl (ht.fraction c hfraction)
  · cases he : t.exponent with
    | none =>
      rw [he] at hexponent
      exact absurd hexponent List.not_mem_nil
    | some p =>
      rw [he, bareScaled, List.mem_cons, List.mem_append] at hexponent
      rcases hexponent with rfl | hsign | hdigit
      · exact .inr (by simp)
      · exact .inr (by simp [mem_minus hsign])
      · exact .inl (ht.exponent p.1 p.2 he c hdigit)

/-- A digital text with the given characters behind its sign and with the value of a decimal. -/
structure Shows (t : NumberText) (d : Decimal) (cs : List Char) : Prop where
  digital : t.Digital
  inspected : t.inspected = minus t.negative ++ cs
  value : ∀ F, t.decimal.nearest F = d.nearest F

variable {s : Bool} {d : Decimal} {cs : List Char}

/-- Without an exponent, numbers are written alike for readers and for inspection. -/
theorem Spells.shows {t : NumberText} (ht : t.Spells d cs) (he : t.exponent = none) :
    t.Shows d cs where
  digital := ht.proper.digital
  inspected := by
    have hchars := ht.chars
    rw [NumberText.chars, he] at hchars
    rw [NumberText.inspected, he]
    exact hchars
  value := ht.value

/-- A zero behind the point changes nothing. -/
theorem Spells.shows_zero (ht : Spells ⟨s, cs, [], none⟩ d cs) :
    Shows ⟨s, cs, ['0'], none⟩ d (cs ++ ['.', '0']) where
  digital :=
    ⟨ht.proper.whole_ne_nil, ht.proper.whole_digits, by simp, fun _ _ h => by cases h⟩
  inspected := rfl
  value F := by
    rw [← ht.value F]
    have hdigits : Nat.ofDigitChars 10 (cs ++ ['0']) 0 = Nat.ofDigitChars 10 cs 0 * 10 := by
      rw [Nat.ofDigitChars_append, Nat.ofDigitChars_cons, Nat.ofDigitChars_nil, Nat.mul_comm]
      rfl
    simp only [decimal, scale, hdigits, List.append_nil, List.length_nil]
    exact (Decimal.nearest_shift _ _).symm

end NumberText

namespace NumberStyle

open NumberText (minus pointed bareScaled Shows)

variable {c : Nat} {e : Int} (s : Bool)

theorem shows_scientific (hc : c % 10 ≠ 0) {leading : Int}
    (he : leading = e + (Nat.toDigits 10 c).length - 1) (hne : leading ≠ 0) :
    Shows
      ⟨s, (Nat.toDigits 10 c).take 1, (Nat.toDigits 10 c).drop 1,
        some (decide (leading < 0), Nat.toDigits 10 leading.natAbs)⟩ ⟨c, e⟩
      (inspection.scientific (Nat.toDigits 10 c) e) := by
  have hspells := spells_scientific s hc he hne
  refine ⟨hspells.proper.digital, ?_, hspells.value⟩
  have hpointed : pointed ((Nat.toDigits 10 c).drop 1) =
      if (Nat.toDigits 10 c).length ≤ 1 then [] else '.' :: (Nat.toDigits 10 c).drop 1 := by
    simp only [pointed, List.drop_eq_nil_iff]
  have hsign : minus (decide (leading < 0)) =
      if leading < 0 then ['-'] else inspection.exponentPlus.toList := by
    simp only [minus, decide_eq_true_eq]
    rfl
  rw [scientific, ← he]
  simp only [NumberText.inspected, bareScaled, hpointed, hsign, List.append_assoc,
    List.cons_append]

theorem exists_shows_positional (hc : c % 10 ≠ 0) (e : Int) :
    ∃ t : NumberText, t.negative = s ∧
      t.Shows ⟨c, e⟩ (inspection.positional (Nat.toDigits 10 c) e) := by
  have hmark : inspection.wholeMark.toList = ['.', '0'] := rfl
  simp only [positional]
  by_cases hwhole : 0 ≤ e
  · rw [if_pos hwhole, hmark]
    exact ⟨_, rfl, (spells_whole s (by omega) hwhole).shows_zero⟩
  rw [if_neg hwhole]
  by_cases hpoint : 0 < ((Nat.toDigits 10 c).length : Int) + e
  · rw [if_pos hpoint]
    exact ⟨_, rfl, (spells_pointed s hc (by omega) (by omega) (by omega)).shows rfl⟩
  · rw [if_neg hpoint]
    exact ⟨_, rfl, (spells_small s hc (by omega)).shows rfl⟩

theorem exists_shows {m : Nat} (hm : binary64.OnGrid m) (hpos : 0 < m) :
    ∃ t : NumberText, t.negative = s ∧
      t.Shows (Decimal.shortest binary64 m) (inspection.magnitudeText binary64 m) := by
  have hread := Decimal.nearest_shortest hm
  have hmod := Decimal.shortest_coefficient_mod hm hpos
  rw [magnitudeText]
  generalize Decimal.shortest binary64 m = d at *
  obtain ⟨c, e⟩ := d
  change c % 10 ≠ 0 at hmod
  cases hstyle : inspection.isPositional binary64 m with
  | true => exact exists_shows_positional s hmod e
  | false =>
    have hleading := leading_ne_zero_of_style (by decide +kernel) (by decide +kernel)
      (show 0 < c by omega) (hread.symm ▸ hstyle)
    exact ⟨_, rfl, shows_scientific s hmod rfl hleading⟩

end NumberStyle

namespace Binary

open NumberText (minus)

theorem exists_digital_inspect (s : Bool) {m : Nat} (h : binary64.Fits m) :
    ∃ t : NumberText, t.Digital ∧ (Binary.finite s m h).inspect.toList = t.inspected ∧
      t.negative = s ∧ t.decimal.nearest binary64 = m := by
  obtain rfl | hpos := Nat.eq_zero_or_pos m
  · refine ⟨⟨s, ['0'], ['0'], none⟩, ?_, ?_, rfl, Decimal.nearest_zero _⟩
    · exact ⟨by simp, by simp, by simp, fun _ _ h => by cases h⟩
    · rw [inspect, NumberStyle.write, if_pos rfl, String.toList_append]
      cases s <;> rfl
  · obtain ⟨t, rfl, hshows⟩ := NumberStyle.exists_shows s h.1 hpos
    refine ⟨t, hshows.digital, ?_, rfl, ?_⟩
    · rw [hshows.inspected, inspect, NumberStyle.write, if_neg (Nat.ne_of_gt hpos),
        String.toList_ofList]
      rfl
    · rw [hshows.value, Decimal.nearest_shortest h.1]

/-- What is not finite is written as a word. -/
theorem exists_word_inspect {x : Binary64} (hx : x.isFinite = false) :
    ∃ s letter rest, letter.isDigit = false ∧ letter ≠ '-' ∧
      x.inspect.toList = minus s ++ letter :: rest := by
  cases x with
  | nan a => exact ⟨false, 'N', ['a', 'N'], rfl, by decide, by cases a <;> decide⟩
  | infinite s =>
    refine ⟨s, 'i', ['n', 'f'], rfl, by decide, ?_⟩
    rw [inspect, NumberStyle.write, String.toList_append]
    cases s <;> rfl
  | finite s m h => cases hx

theorem inspect_finite_ne {s : Bool} {m : Nat} (h : binary64.Fits m) {x : Binary64}
    (hx : x.isFinite = false) : (Binary.finite s m h).inspect ≠ x.inspect := by
  intro htext
  obtain ⟨t, ht, httext, -⟩ := exists_digital_inspect s h
  obtain ⟨r, letter, rest, hletter, hminus, hword⟩ := exists_word_inspect hx
  obtain ⟨c, cs, hc, hwhole⟩ := ht.exists_digit
  have hc' : c ≠ '-' ∧ c ≠ letter := by
    constructor <;> rintro rfl
    · cases hc
    · rw [hc] at hletter
      cases hletter
  have hlists := httext.symm.trans ((congrArg String.toList htext).trans hword)
  rw [NumberText.inspected, hwhole] at hlists
  cases hsign : t.negative <;> cases r <;>
    simp [hsign, minus, hc'.1, hc'.2, hminus.symm] at hlists

/-- Numbers with the same text are the same, or both are NaN. -/
theorem eq_of_inspect_eq {x y : Binary64} (htext : x.inspect = y.inspect) :
    x = y ∨ x.isNaN = true ∧ y.isNaN = true := by
  have hword (a s : Bool) : (nan a : Binary64).inspect ≠ (infinite s : Binary64).inspect := by
    cases a <;> cases s <;> decide
  cases x with
  | nan a =>
    cases y with
    | nan b => exact .inr ⟨rfl, rfl⟩
    | infinite t => exact absurd htext (hword a t)
    | finite t n hn => exact absurd htext.symm (inspect_finite_ne hn rfl)
  | infinite s =>
    cases y with
    | nan b => exact absurd htext.symm (hword b s)
    | infinite t =>
      have hsign : s = t := by
        revert htext
        cases s <;> cases t <;> decide
      exact .inl (congrArg infinite hsign)
    | finite t n hn => exact absurd htext.symm (inspect_finite_ne hn rfl)
  | finite s m hm =>
    cases y with
    | nan b => exact absurd htext (inspect_finite_ne hm rfl)
    | infinite r => exact absurd htext (inspect_finite_ne hm rfl)
    | finite r n hn =>
      obtain ⟨t, ht, httext, rfl, rfl⟩ := exists_digital_inspect s hm
      obtain ⟨u, hu, hutext, rfl, rfl⟩ := exists_digital_inspect r hn
      rw [htext, hutext] at httext
      obtain rfl := hu.inspected_inj ht httext
      exact .inl rfl

/-- The text of a number never holds the bracket that is put behind it. -/
theorem bracket_notMem_inspect (x : Binary64) : ')' ∉ x.inspect.toList := by
  cases x with
  | nan a => cases a <;> decide
  | infinite s => cases s <;> decide
  | finite s m h =>
    obtain ⟨t, ht, httext, -⟩ := exists_digital_inspect s h
    rw [httext]
    intro hmem
    rcases ht.mem_inspected hmem with hdigit | hmark
    · cases hdigit
    · exact absurd hmark (by decide)

theorem inspect_eq_iff {x y : Binary64} :
    x.inspect = y.inspect ↔ x = y ∨ x.isNaN = true ∧ y.isNaN = true := by
  refine ⟨eq_of_inspect_eq, ?_⟩
  rintro (rfl | ⟨hx, hy⟩)
  · rfl
  · cases x <;> cases hx
    cases y <;> cases hy
    rfl

end Binary

end PageScript
