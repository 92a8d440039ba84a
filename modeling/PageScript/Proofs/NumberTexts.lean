import PageScript.Proofs.Digits
import PageScript.Proofs.EqualTexts
import PageScript.Proofs.HalfUp
import PageScript.Proofs.ShortestDecimals

/-!
# Texts of numbers

A written number is a sign, a whole part, a fraction and an exponent, of which all but the whole
part may be missing. `NumberText.Proper` says how these are spelled, and `NumberText.decimal` what
they stand for. The spelling leaves no choice: a text has at most one such reading.

Main statement: every finite number but zero has such a text, with an exponent if it is very large
or very small, and the text stands for a value that is rounded to the number. So numbers with the
same text are equal.
-/

namespace PageScript

open BinaryFormat (binary64 holdsWhole_binary64)

/-- The parts of a written number. -/
@[ext]
structure NumberText where
  negative : Bool
  whole : List Char
  fraction : List Char
  /-- The sign and the digits of the exponent. -/
  exponent : Option (Bool × List Char)

namespace NumberText

def pointed (fraction : List Char) : List Char := if fraction = [] then [] else '.' :: fraction

def scaled : Option (Bool × List Char) → List Char
  | none => []
  | some (negative, digits) => 'e' :: (if negative then '-' else '+') :: digits

def chars (t : NumberText) : List Char :=
  (if t.negative then ['-'] else []) ++ (t.whole ++ (pointed t.fraction ++ scaled t.exponent))

def scale : Option (Bool × List Char) → Int
  | none => 0
  | some (negative, digits) =>
    if negative then -Nat.ofDigitChars 10 digits 0 else Nat.ofDigitChars 10 digits 0

/-- What the text stands for, but for the sign. -/
def decimal (t : NumberText) : Decimal :=
  ⟨Nat.ofDigitChars 10 (t.whole ++ t.fraction) 0, scale t.exponent - t.fraction.length⟩

/--
The spelling of a number. The whole part has no zero in front, unless it is a single one. A fraction
does not end in a zero. With an exponent the whole part is one digit that is no zero, and neither
does the exponent start with one.
-/
structure Proper (t : NumberText) : Prop where
  whole_ne_nil : t.whole ≠ []
  whole_digits : ∀ c ∈ t.whole, c.isDigit = true
  whole_head : t.whole.head? = some '0' → t.whole = ['0']
  fraction_digits : ∀ c ∈ t.fraction, c.isDigit = true
  fraction_last : t.fraction.getLast? ≠ some '0'
  exponent : ∀ negative digits, t.exponent = some (negative, digits) →
    (∃ c, t.whole = [c] ∧ c ≠ '0') ∧ digits ≠ [] ∧ (∀ c ∈ digits, c.isDigit = true) ∧
      digits.head? ≠ some '0'

theorem span_digits_inj {a b s t : List Char} (ha : ∀ c ∈ a, c.isDigit = true)
    (hb : ∀ c ∈ b, c.isDigit = true) (hs : ∀ c ∈ s.head?, c.isDigit = false)
    (ht : ∀ c ∈ t.head?, c.isDigit = false) (h : a ++ s = b ++ t) : a = b ∧ s = t := by
  have hrun {a s : List Char} (ha : ∀ c ∈ a, c.isDigit = true)
      (hs : ∀ c ∈ s.head?, c.isDigit = false) : (a ++ s).takeWhile Char.isDigit = a := by
    rw [List.takeWhile_append_of_pos ha]
    cases s with
    | nil => simp
    | cons c s => simp [hs c rfl]
  have hab : a = b := by rw [← hrun ha hs, h, hrun hb ht]
  subst hab
  exact ⟨rfl, List.append_cancel_left h⟩

theorem head?_scaled {exponent : Option (Bool × List Char)} :
    ∀ c ∈ (scaled exponent).head?, c = 'e' := by
  cases exponent with
  | none => exact fun c hc => by cases hc
  | some p => exact fun c hc => (Option.some.inj hc).symm

theorem head?_pointed_append {fraction rest : List Char} (hrest : ∀ c ∈ rest.head?, c = 'e') :
    ∀ c ∈ (pointed fraction ++ rest).head?, c = '.' ∨ c = 'e' := by
  intro c hc
  rw [pointed] at hc
  split at hc
  · exact .inr (hrest c hc)
  · exact .inl (Option.some.inj hc).symm

theorem scaled_inj {e e' : Option (Bool × List Char)} (h : scaled e = scaled e') : e = e' := by
  cases e with
  | none =>
    cases e' with
    | none => rfl
    | some => cases h
  | some p =>
    cases e' with
    | none => cases h
    | some q =>
      obtain ⟨⟨_ | _, digits⟩, ⟨_ | _, digits'⟩⟩ := p, q
      all_goals simp_all [scaled]

theorem pointed_append_inj {f f' r r' : List Char} (hf : ∀ c ∈ f, c.isDigit = true)
    (hf' : ∀ c ∈ f', c.isDigit = true) (hr : ∀ c ∈ r.head?, c = 'e')
    (hr' : ∀ c ∈ r'.head?, c = 'e') (h : pointed f ++ r = pointed f' ++ r') :
    f = f' ∧ r = r' := by
  have hmark {r : List Char} (hr : ∀ c ∈ r.head?, c = 'e') (rest : List Char) :
      r ≠ '.' :: rest := by
    rintro rfl
    exact absurd (hr '.' rfl) (by decide)
  have hend {r : List Char} (hr : ∀ c ∈ r.head?, c = 'e') : ∀ c ∈ r.head?, c.isDigit = false :=
    fun c hc => by rw [hr c hc]; rfl
  by_cases hnone : f = [] <;> by_cases hnone' : f' = []
  · subst hnone hnone'
    exact ⟨rfl, h⟩
  · rw [pointed, if_pos hnone, pointed, if_neg hnone'] at h
    exact absurd h (hmark hr _)
  · rw [pointed, if_neg hnone, pointed, if_pos hnone'] at h
    exact absurd h.symm (hmark hr' _)
  · rw [pointed, if_neg hnone, pointed, if_neg hnone'] at h
    exact span_digits_inj hf hf' (hend hr) (hend hr') (List.cons.inj h).2

theorem Proper.exists_digit {t : NumberText} (ht : t.Proper) :
    ∃ c cs, c.isDigit = true ∧ t.chars = (if t.negative then ['-'] else []) ++ c :: cs := by
  obtain ⟨c, cs, hwhole⟩ := List.exists_cons_of_ne_nil ht.whole_ne_nil
  refine ⟨c, cs ++ (pointed t.fraction ++ scaled t.exponent), ?_, ?_⟩
  · exact ht.whole_digits c (by rw [hwhole]; exact List.mem_cons_self)
  · rw [chars, hwhole, List.cons_append]

/-- Behind the sign is a digit, so the sign cannot be taken for anything else. -/
theorem Proper.negative_eq {t : NumberText} (ht : t.Proper) :
    t.negative = decide (t.chars.head? = some '-') := by
  obtain ⟨c, cs, hc, hchars⟩ := ht.exists_digit
  rw [hchars]
  cases t.negative with
  | true => rfl
  | false =>
    have hne : c ≠ '-' := by
      rintro rfl
      cases hc
    exact (decide_eq_false fun h => hne (Option.some.inj h)).symm

/-- A text is read in one way only. -/
theorem Proper.chars_inj {t u : NumberText} (ht : t.Proper) (hu : u.Proper)
    (h : t.chars = u.chars) : t = u := by
  have hnegative : t.negative = u.negative := by rw [ht.negative_eq, hu.negative_eq, h]
  have hmark (t : NumberText) :
      ∀ c ∈ (pointed t.fraction ++ scaled t.exponent).head?, c.isDigit = false := fun c hc => by
    rcases head?_pointed_append head?_scaled c hc with rfl | rfl <;> rfl
  rw [chars, chars, hnegative] at h
  obtain ⟨hwhole, hrest⟩ := span_digits_inj ht.whole_digits hu.whole_digits (hmark t) (hmark u)
    (List.append_cancel_left h)
  obtain ⟨hfraction, hexponent⟩ := pointed_append_inj ht.fraction_digits hu.fraction_digits
    head?_scaled head?_scaled hrest
  exact NumberText.ext hnegative hwhole hfraction (scaled_inj hexponent)

end NumberText

/-- Zeros in front of digits do not count. -/
theorem ofDigitChars_zeros_append (k : Nat) (cs : List Char) :
    Nat.ofDigitChars 10 (List.replicate k '0' ++ cs) 0 = Nat.ofDigitChars 10 cs 0 := by
  induction k with
  | zero => rfl
  | succ k ih =>
    rw [List.replicate_succ, List.cons_append, Nat.ofDigitChars_cons]
    exact ih

/-- A decimal between one and ten is rounded to a number between them. -/
theorem Decimal.nearest_between {F : BinaryFormat} (hF : F.HoldsWhole)
    (hten : 10 ≤ Nat.pow 2 F.precision) {c k : Nat} (hlower : Nat.pow 10 k ≤ c)
    (hupper : c < Nat.pow 10 (k + 1)) :
    F.one ≤ Decimal.nearest F ⟨c, -(k : Int)⟩ ∧
      Decimal.nearest F ⟨c, -(k : Int)⟩ ≤ 10 * F.one := by
  have hpos : 0 < Nat.pow 10 k := Nat.pow_pos (by decide)
  have hpow : Nat.pow 10 (k + 1) = 10 * Nat.pow 10 k := Nat.pow_succ'
  have hone : F.OnGrid F.one := by simpa using (BinaryFormat.fits_whole hF (n := 1) (by omega)).1
  have hquotient : Decimal.nearest F ⟨c, -(k : Int)⟩ = F.nearest (c * F.one) (Nat.pow 10 k) := by
    simp [Decimal.nearest, quotient]
  rw [hquotient]
  constructor
  · have hle : F.one * Nat.pow 10 k ≤ c * F.one := by
      rw [Nat.mul_comm]
      exact Nat.mul_le_mul_right _ hlower
    calc F.one = F.nearest (F.one * Nat.pow 10 k) (Nat.pow 10 k) := (F.nearest_mul hone hpos).symm
      _ ≤ F.nearest (c * F.one) (Nat.pow 10 k) := F.nearest_mono hle _
  · have hle : c * F.one ≤ 10 * F.one * Nat.pow 10 k := by
      rw [Nat.mul_right_comm, ← hpow]
      exact Nat.mul_le_mul_right _ (Nat.le_of_lt hupper)
    calc F.nearest (c * F.one) (Nat.pow 10 k)
        ≤ F.nearest (10 * F.one * Nat.pow 10 k) (Nat.pow 10 k) := F.nearest_mono hle _
      _ = 10 * F.one := F.nearest_mul (BinaryFormat.fits_whole hF hten).1 hpos

/-- A proper text with the given characters behind its sign and with the value of a decimal. -/
structure NumberText.Spells (t : NumberText) (d : Decimal) (cs : List Char) : Prop where
  proper : t.Proper
  chars : t.chars = (if t.negative then ['-'] else []) ++ cs
  value : ∀ F, t.decimal.nearest F = d.nearest F

namespace NumberStyle

open NumberText (pointed scaled)

variable {c : Nat} {e : Int} (s : Bool)

theorem isDigit_toDigits (n : Nat) : ∀ d ∈ Nat.toDigits 10 n, d.isDigit = true :=
  fun _ hd => Nat.isDigit_of_mem_toDigits (by decide) (by decide) hd

theorem getLast?_toDigits_ne_zero (hc : c % 10 ≠ 0) : (Nat.toDigits 10 c).getLast? ≠ some '0' := by
  rw [getLast?_toDigits, ne_eq, Option.some.injEq]
  exact digitChar_ne_zero (Nat.mod_lt c (by decide)) (by omega)

/-- All digits before the point, and zeros behind them. -/
theorem spells_whole (hc : 0 < c) (he : 0 ≤ e) :
    NumberText.Spells ⟨s, Nat.toDigits 10 c ++ List.replicate e.toNat '0', [], none⟩ ⟨c, e⟩
      (Nat.toDigits 10 c ++ List.replicate e.toNat '0') := by
  have hpos : 0 < c * Nat.pow 10 e.toNat := Nat.mul_pos hc (Nat.pow_pos (by decide))
  rw [← toDigits_mul_pow hc]
  refine ⟨?_, by simp [NumberText.chars, pointed, scaled], fun F => ?_⟩
  · exact ⟨Nat.toDigits_ne_nil, isDigit_toDigits _, fun h => absurd h (head?_toDigits hpos),
      by simp, by simp, fun _ _ h => by cases h⟩
  · simp only [NumberText.decimal, NumberText.scale, List.append_nil, Nat.ofDigitChars_ten_toDigits,
      List.length_nil, Decimal.nearest_mul_pow]
    congr 2
    omega

/-- The point between the digits. -/
theorem spells_pointed (hc : c % 10 ≠ 0) {w : Nat} (hw : 0 < w)
    (he : (w : Int) = (Nat.toDigits 10 c).length + e) (hlt : w < (Nat.toDigits 10 c).length) :
    NumberText.Spells ⟨s, (Nat.toDigits 10 c).take w, (Nat.toDigits 10 c).drop w, none⟩ ⟨c, e⟩
      ((Nat.toDigits 10 c).take w ++ '.' :: (Nat.toDigits 10 c).drop w) := by
  have hread : Nat.ofDigitChars 10 (Nat.toDigits 10 c) 0 = c := Nat.ofDigitChars_ten_toDigits
  have hlast := getLast?_toDigits_ne_zero hc
  have hhead := head?_toDigits (n := c) (by omega)
  have hdigits := isDigit_toDigits c
  generalize Nat.toDigits 10 c = ds at *
  have hdrop : ds.drop w ≠ [] := by
    rw [ne_eq, List.drop_eq_nil_iff]
    omega
  refine ⟨⟨?_, ?_, ?_, ?_, ?_, fun _ _ h => by cases h⟩, ?_, fun F => ?_⟩
  · rw [ne_eq, ← List.length_eq_zero_iff, List.length_take]
    omega
  · exact fun d hd => hdigits d (List.mem_of_mem_take hd)
  · rw [List.head?_take, if_neg (by omega)]
    exact fun h => absurd h hhead
  · exact fun d hd => hdigits d (List.mem_of_mem_drop hd)
  · rwa [List.getLast?_drop, if_neg (by omega)]
  · simp [NumberText.chars, pointed, scaled, hdrop]
  · simp only [NumberText.decimal, NumberText.scale, List.take_append_drop, hread, List.length_drop]
    congr 2
    omega

/-- Zeros between the point and the digits. -/
theorem spells_small (hc : c % 10 ≠ 0) {k : Nat}
    (he : (k : Int) + (Nat.toDigits 10 c).length = -e) :
    NumberText.Spells ⟨s, ['0'], List.replicate k '0' ++ Nat.toDigits 10 c, none⟩ ⟨c, e⟩
      ('0' :: '.' :: List.replicate k '0' ++ Nat.toDigits 10 c) := by
  have hread :
      Nat.ofDigitChars 10 (['0'] ++ (List.replicate k '0' ++ Nat.toDigits 10 c)) 0 = c := by
    rw [← List.append_assoc]
    exact (ofDigitChars_zeros_append (k + 1) _).trans Nat.ofDigitChars_ten_toDigits
  have hlast := getLast?_toDigits_ne_zero hc
  refine ⟨⟨by simp, ?_, fun _ => rfl, ?_, ?_, fun _ _ h => by cases h⟩, ?_, fun F => ?_⟩
  · simp
  · intro d hd
    rcases List.mem_append.mp hd with hd | hd
    · rw [List.eq_of_mem_replicate hd]
      rfl
    · exact isDigit_toDigits c d hd
  · rwa [List.getLast?_append, getLast?_toDigits, Option.some_or, ← getLast?_toDigits]
  · simp [NumberText.chars, pointed, scaled, Nat.toDigits_ne_nil]
  · simp only [NumberText.decimal, NumberText.scale, hread, List.length_append,
      List.length_replicate]
    congr 2
    omega

/-- One digit before the point, and an exponent. -/
theorem spells_scientific (hc : c % 10 ≠ 0) {leading : Int}
    (he : leading = e + (Nat.toDigits 10 c).length - 1) (hne : leading ≠ 0) :
    NumberText.Spells
      ⟨s, (Nat.toDigits 10 c).take 1, (Nat.toDigits 10 c).drop 1,
        some (decide (leading < 0), Nat.toDigits 10 leading.natAbs)⟩ ⟨c, e⟩
      (plain.scientific (Nat.toDigits 10 c) e) := by
  have hread : Nat.ofDigitChars 10 (Nat.toDigits 10 c) 0 = c := Nat.ofDigitChars_ten_toDigits
  have hlast := getLast?_toDigits_ne_zero hc
  have hhead := head?_toDigits (n := c) (by omega)
  have hdigits := isDigit_toDigits c
  have hlength := Nat.length_toDigits_pos (b := 10) (n := c)
  have hscale : NumberText.scale (some (decide (leading < 0), Nat.toDigits 10 leading.natAbs)) =
      leading := by
    simp only [NumberText.scale, Nat.ofDigitChars_ten_toDigits, decide_eq_true_eq]
    split <;> omega
  rw [scientific, ← he]
  generalize Nat.toDigits 10 c = ds at *
  refine ⟨⟨?_, ?_, ?_, ?_, ?_, ?_⟩, ?_, fun F => ?_⟩
  · rw [ne_eq, ← List.length_eq_zero_iff, List.length_take]
    omega
  · exact fun d hd => hdigits d (List.mem_of_mem_take hd)
  · rw [List.head?_take, if_neg (by decide)]
    exact fun h => absurd h hhead
  · exact fun d hd => hdigits d (List.mem_of_mem_drop hd)
  · rw [List.getLast?_drop]
    split
    · simp
    · exact hlast
  · rintro _ _ ⟨⟩
    refine ⟨?_, Nat.toDigits_ne_nil, isDigit_toDigits _, head?_toDigits (by omega)⟩
    obtain ⟨first, rest, rfl⟩ := List.exists_cons_of_length_pos hlength
    exact ⟨first, rfl, fun hzero => hhead (by rw [hzero]; rfl)⟩
  · have hpointed : pointed (ds.drop 1) = if ds.length ≤ 1 then [] else '.' :: ds.drop 1 := by
      simp only [pointed, List.drop_eq_nil_iff]
    have hsign : (if decide (leading < 0) = true then '-' else '+') ::
        Nat.toDigits 10 leading.natAbs =
        (if leading < 0 then ['-'] else plain.exponentPlus.toList) ++
          Nat.toDigits 10 leading.natAbs := by
      simp only [decide_eq_true_eq]
      split <;> rfl
    simp only [NumberText.chars, scaled, hpointed, hsign, List.append_assoc, List.cons_append]
  · simp only [NumberText.decimal, hscale, List.take_append_drop, hread, List.length_drop]
    congr 2
    omega

theorem exists_positional (hc : c % 10 ≠ 0) (e : Int) :
    ∃ t : NumberText, t.negative = s ∧ t.exponent = none ∧ (0 ≤ e → t.fraction = []) ∧
      t.Spells ⟨c, e⟩ (plain.positional (Nat.toDigits 10 c) e) := by
  have hnothing : plain.wholeMark.toList = [] := rfl
  simp only [positional]
  by_cases hwhole : 0 ≤ e
  · rw [if_pos hwhole, hnothing, List.append_nil]
    exact ⟨_, rfl, rfl, fun _ => rfl, spells_whole s (by omega) hwhole⟩
  rw [if_neg hwhole]
  by_cases hpoint : 0 < ((Nat.toDigits 10 c).length : Int) + e
  · rw [if_pos hpoint]
    exact ⟨_, rfl, rfl, fun h => absurd h hwhole,
      spells_pointed s hc (by omega) (by omega) (by omega)⟩
  · rw [if_neg hpoint]
    exact ⟨_, rfl, rfl, fun h => absurd h hwhole, spells_small s hc (by omega)⟩

/-- A number between one and ten needs no exponent, in a style that writes it positionally. -/
theorem leading_ne_zero_of_style {style : NumberStyle}
    (hfrom : style.positionalFrom.nearest binary64 ≤ binary64.one)
    (hbelow : 10 * binary64.one < style.positionalBelow.nearest binary64) (hc : 0 < c)
    (hm : style.isPositional binary64 (Decimal.nearest binary64 ⟨c, e⟩) = false) :
    e + (Nat.toDigits 10 c).length - 1 ≠ 0 := by
  intro hzero
  obtain ⟨k, hk⟩ : ∃ k, (Nat.toDigits 10 c).length = k + 1 :=
    Nat.exists_eq_add_one.mpr Nat.length_toDigits_pos
  have hupper : c < Nat.pow 10 (k + 1) :=
    (Nat.length_toDigits_le_iff (by decide) (by omega)).mp (Nat.le_of_eq hk)
  have hlower : Nat.pow 10 k ≤ c := by
    obtain rfl | hpos := Nat.eq_zero_or_pos k
    · exact hc
    · exact Nat.not_lt.mp fun hlt =>
        absurd ((Nat.length_toDigits_le_iff (by decide) hpos).mpr hlt) (by omega)
  obtain rfl : e = -(k : Int) := by omega
  obtain ⟨hmin, hmax⟩ := Decimal.nearest_between (F := binary64) holdsWhole_binary64 (by decide)
    hlower hupper
  rw [isPositional, decide_eq_true (Nat.le_trans hfrom hmin),
    decide_eq_true (Nat.lt_of_le_of_lt hmax hbelow)] at hm
  cases hm

theorem leading_ne_zero (hc : 0 < c)
    (hm : plain.isPositional binary64 (Decimal.nearest binary64 ⟨c, e⟩) = false) :
    e + (Nat.toDigits 10 c).length - 1 ≠ 0 :=
  leading_ne_zero_of_style positionalFrom_le_one (by decide +kernel) hc hm

/-- Every positive magnitude has a proper text, with the value of its shortest decimal. -/
theorem exists_spells {m : Nat} (hm : binary64.OnGrid m) (hpos : 0 < m) :
    ∃ t : NumberText, t.negative = s ∧
      (t.exponent = none ↔ plain.isPositional binary64 m = true) ∧
      (plain.isPositional binary64 m = true → 0 ≤ (Decimal.shortest binary64 m).exponent →
        t.fraction = []) ∧
      t.Spells (Decimal.shortest binary64 m) (plain.magnitudeText binary64 m) := by
  have hread := Decimal.nearest_shortest hm
  have hmod := Decimal.shortest_coefficient_mod hm hpos
  rw [magnitudeText]
  generalize Decimal.shortest binary64 m = d at *
  obtain ⟨c, e⟩ := d
  change c % 10 ≠ 0 at hmod
  cases hstyle : plain.isPositional binary64 m with
  | true =>
    obtain ⟨t, hnegative, hexponent, hfraction, hspells⟩ := exists_positional s hmod e
    exact ⟨t, hnegative, ⟨fun _ => rfl, fun _ => hexponent⟩, fun _ => hfraction, hspells⟩
  | false =>
    have hleading := leading_ne_zero (c := c) (e := e) (by omega) (by rwa [hread])
    refine ⟨_, rfl, ⟨fun h => ?_, fun h => ?_⟩, fun h => ?_, spells_scientific s hmod rfl hleading⟩
    all_goals cases h

end NumberStyle

namespace Binary

theorem units?_ofDecimal {F : BinaryFormat} (s : Bool) {d : Decimal} (hd : d.nearest F < F.limit) :
    (ofDecimal s d : Binary F).units? = some (signed s (d.nearest F)) := by
  rw [ofDecimal, round, dif_pos (show F.nearest _ _ < F.limit from hd)]
  rfl

theorem text_of_spells {t : NumberText} {d : Decimal} {m : Nat} (h : binary64.Fits m) (hpos : 0 < m)
    (ht : t.Spells d (NumberStyle.plain.magnitudeText binary64 m)) :
    (Binary.finite t.negative m h).text = String.ofList t.chars := by
  rw [ht.chars, text, NumberStyle.write, if_neg (Nat.ne_of_gt hpos)]

/-- Every finite number has a text that is read as a value which is rounded to it. -/
theorem exists_proper_text (s : Bool) {m : Nat} (h : binary64.Fits m) :
    ∃ t : NumberText, t.Proper ∧ (Binary.finite s m h).text = String.ofList t.chars ∧
      t.decimal.nearest binary64 = m ∧ (0 < m → t.negative = s) := by
  obtain rfl | hpos := Nat.eq_zero_or_pos m
  · refine ⟨⟨false, ['0'], [], none⟩, ?_, ?_, Decimal.nearest_zero 0, fun hpos => ?_⟩
    · exact ⟨by simp, by simp, fun _ => rfl, by simp, by simp, fun _ _ h => by cases h⟩
    · cases s <;> rfl
    · cases hpos
  · obtain ⟨t, rfl, -, -, hspells⟩ := NumberStyle.exists_spells s h.1 hpos
    refine ⟨t, hspells.proper, text_of_spells h hpos hspells, ?_, fun _ => rfl⟩
    rw [hspells.value, Decimal.nearest_shortest h.1]

/-- A word is no proper text. -/
theorem text_infinite_ne {t : NumberText} (ht : t.Proper) (s : Bool) :
    (Binary.infinite s : Binary64).text ≠ String.ofList t.chars := by
  obtain ⟨c, cs, hc, hchars⟩ := ht.exists_digit
  intro htext
  have hlist : (if s then ['-'] else []) ++ "Infinity".toList =
      (if t.negative then ['-'] else []) ++ c :: cs := by
    rw [← hchars, ← String.toList_ofList (l := t.chars), ← htext]
    cases s <;> rfl
  have hminus : c ≠ '-' := by
    rintro rfl
    cases hc
  have hletter : c ≠ 'I' := by
    rintro rfl
    cases hc
  cases s <;> cases hsign : t.negative <;> simp [hsign, hminus.symm, hletter.symm] at hlist

/-- Numbers with the same text are equal. -/
theorem equal_of_text_eq {x y : Binary64} (hx : x.isNaN = false) (hy : y.isNaN = false)
    (htext : x.text = y.text) : x.equal y = true := by
  cases x with
  | nan => cases hx
  | infinite s =>
    cases y with
    | nan => cases hy
    | infinite r =>
      obtain rfl : s = r := by
        cases s <;> cases r
        · rfl
        · exact absurd htext (by decide)
        · exact absurd htext (by decide)
        · rfl
      simp [equal, rank?]
    | finite r n hn =>
      obtain ⟨u, hu, hutext, -⟩ := exists_proper_text r hn
      exact absurd (htext.trans hutext) (text_infinite_ne hu s)
  | finite s m hm =>
    obtain ⟨t, ht, httext, rfl, htsign⟩ := exists_proper_text s hm
    cases y with
    | nan => cases hy
    | infinite r => exact absurd (htext.symm.trans httext) (text_infinite_ne ht r)
    | finite r n hn =>
      obtain ⟨u, hu, hutext, rfl, husign⟩ := exists_proper_text r hn
      rw [httext, hutext, String.ofList_inj] at htext
      obtain rfl := ht.chars_inj hu htext
      refine (equal_iff_of_units? rfl rfl).mpr ?_
      obtain hzero | hpos := Nat.eq_zero_or_pos (t.decimal.nearest binary64)
      · rw [hzero]
        cases s <;> cases r <;> rfl
      · rw [← htsign hpos, ← husign hpos]

theorem text_eq_iff {x y : Binary64} (hx : x.isNaN = false) (hy : y.isNaN = false) :
    x.text = y.text ↔ x.equal y = true := by
  refine ⟨equal_of_text_eq hx hy, fun heq => ?_⟩
  unfold equal at heq
  split at heq
  · next a b ha hb =>
    obtain rfl := eq_of_beq heq
    exact text_eq_of_rank? ha hb
  · cases heq

theorem signed_neg_iff {s : Bool} {m : Nat} (hm : 0 < m) : signed s m < 0 ↔ s = true := by
  cases s with
  | false => simp [signed]
  | true =>
    simp only [signed, if_true, iff_true]
    omega

section Bounds

variable (s : Bool) {m : Nat} (h : binary64.Fits m)

theorem units?_abs : (Binary.finite s m h).abs.units? = some (m : Int) := rfl

theorem less_positionalBelow_iff :
    (Binary.finite s m h).abs.less (.ofDecimal false NumberStyle.plain.positionalBelow) = true ↔
      m < NumberStyle.plain.positionalBelow.nearest binary64 := by
  rw [less_iff_of_units? (units?_abs s h) (units?_ofDecimal false (by decide +kernel))]
  exact Int.ofNat_lt

theorem isPositional_iff :
    NumberStyle.plain.isPositional binary64 m = true ↔
      ¬ ((Binary.ofDecimal false NumberStyle.plain.positionalBelow : Binary64).atMost
          (Binary.finite s m h).abs = true ∨
        (Binary.finite s m h).abs.less (.ofDecimal false NumberStyle.plain.positionalFrom) =
          true) := by
  rw [atMost_iff_of_units? (units?_ofDecimal false (by decide +kernel)) (units?_abs s h),
    less_iff_of_units? (units?_abs s h) (units?_ofDecimal false (by decide +kernel))]
  simp only [NumberStyle.isPositional, Bool.and_eq_true, decide_eq_true_eq, signed,
    Bool.false_eq_true, if_false]
  omega

end Bounds

end Binary

/--
Every finite number but zero has a proper text: with a sign if it is negative, with an exponent if
it is not below `10 ^ 21` or is below a millionth, without a fraction if it is whole and below
`10 ^ 21`. The value of the text is rounded to the number. So two numbers have the same text exactly
if they are equal.
-/
theorem number_texts_read_back :
    (∀ x : Binary64, x.isFinite = true → x.isZero = false →
      ∃ t : NumberText, t.Proper ∧ x.text = String.ofList t.chars ∧
        (t.negative = true ↔ x.less (.zero false) = true) ∧
        (t.exponent ≠ none ↔ (Binary.ofDecimal false ⟨1, 21⟩ : Binary64).atMost x.abs = true ∨
          x.abs.less (.ofDecimal false ⟨1, -6⟩) = true) ∧
        (∀ k : Int, x.value? = some (k : ℚ) → x.abs.less (.ofDecimal false ⟨1, 21⟩) = true →
          t.fraction = []) ∧
        ∃ m h, x = .finite t.negative m h ∧
          binary64.IsNearest (t.decimal.value * binary64.one) m) ∧
    ∀ x y : Binary64, x.isNaN = false → y.isNaN = false →
      (x.text = y.text ↔ x.equal y = true) := by
  refine ⟨fun x hfinite hzero => ?_, fun x y hx hy => Binary.text_eq_iff hx hy⟩
  cases x with
  | nan => cases hfinite
  | infinite => cases hfinite
  | finite s m h =>
    have hpos : 0 < m := by
      refine Nat.pos_of_ne_zero fun hm => ?_
      subst hm
      cases s <;> cases hzero
    obtain ⟨t, rfl, hexponent, hfraction, hspells⟩ := NumberStyle.exists_spells s h.1 hpos
    have hread : t.decimal.nearest binary64 = m := by
      rw [hspells.value, Decimal.nearest_shortest h.1]
    refine ⟨t, hspells.proper, Binary.text_of_spells h hpos hspells, ?_, ?_, ?_, m, h, rfl, ?_⟩
    · rw [Binary.less_iff_of_units? rfl rfl]
      exact (Binary.signed_neg_iff hpos).symm
    · rw [ne_eq, hexponent, Binary.isPositional_iff t.negative h, not_not]
      rfl
    · intro k hk hbelow
      obtain ⟨_, _, heq, -⟩ := Binary.eq_finite_of_whole (Binary.value?_eq_intCast_iff.mp hk)
      have hwhole : binary64.one ∣ m := ⟨k.natAbs, by rw [(Binary.finite.inj heq).2, Nat.mul_comm]⟩
      have hstyle := NumberStyle.isPositional_of_one_le (Nat.le_of_dvd hpos hwhole)
        ((Binary.less_positionalBelow_iff t.negative h).mp hbelow)
      exact hfraction hstyle (Decimal.shortest_exponent_nonneg h.1 hpos hwhole)
    · rw [← hread]
      exact Decimal.nearest_isNearest (by decide) t.decimal

/-- The least positive number, and both zeros. -/
theorem number_texts_read_back_least :
    (Binary.ofBits 1 : Binary64).isFinite = true ∧ (Binary.ofBits 1 : Binary64).isZero = false ∧
    (∃ t : NumberText, t.Proper ∧ (Binary.ofBits 1 : Binary64).text = String.ofList t.chars ∧
      t.negative = false ∧ t.exponent ≠ none) ∧
    (Binary.zero true : Binary64).isNaN = false ∧ (Binary.zero false : Binary64).isNaN = false ∧
    (Binary.zero true : Binary64).text = (Binary.zero false : Binary64).text := by
  have hfinite : (Binary.ofBits 1 : Binary64).isFinite = true := by decide +kernel
  have hzero : (Binary.ofBits 1 : Binary64).isZero = false := by decide +kernel
  have hless : (Binary.ofBits 1 : Binary64).abs.less (.ofDecimal false ⟨1, -6⟩) = true := by
    decide +kernel
  have hpositive : ¬ (Binary.ofBits 1 : Binary64).less (.zero false) = true := by decide +kernel
  obtain ⟨hread, hsame⟩ := number_texts_read_back
  obtain ⟨t, ht, htext, hnegative, hexponent, -⟩ := hread _ hfinite hzero
  refine ⟨hfinite, hzero, ⟨t, ht, htext, ?_, hexponent.mpr (.inr hless)⟩, rfl, rfl,
    (hsame _ _ rfl rfl).mpr rfl⟩
  exact Bool.eq_false_iff.mpr fun h => hpositive (hnegative.mp h)

end PageScript
