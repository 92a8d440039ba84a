import PageScript.Proofs.HalfUp
import PageScript.Proofs.NumeralParts
import PageScript.Proofs.RoundingErrors

/-!
# Long numerals

The sum of a run of digits is rounded at every digit once it is above `2 ^ 53`, and a number that is
rounded twice need not be the nearest one. In radix ten the first such number comes soon after
`2 ^ 54`, where products by ten cease to be exact. In radix sixteen products are always exact, and
it comes after `2 ^ 57`, where a digit for the first time follows a sum that was rounded.

Main statement: up to a bound for each radix every run is read as the nearest number, and no greater
bound has this property. Above it, all runs of up to twenty digits are read with a small relative
error.
-/

namespace PageScript

namespace Binary

variable {F : BinaryFormat} {x : Binary F} {n : Nat}

theorem IsInt.eq_ofNat (hF : F.HoldsWhole) (hx : x.IsInt n) (hn : n ≤ Nat.pow 2 F.precision) :
    x = ofNat n := by
  obtain ⟨_, rfl⟩ := isInt_natCast_iff.mp hx
  obtain ⟨_, hofNat⟩ := isInt_natCast_iff.mp (ofNat_isInt hF hn)
  exact hofNat.symm

/-- A number that is added to an exact product is rounded in only once. -/
theorem IsInt.mul_add_ofNat (hF : F.HoldsWhole) {radix d : Nat} (hx : x.IsInt n)
    (hradix : radix ≤ Nat.pow 2 F.precision) (hd : d ≤ Nat.pow 2 F.precision)
    (hfits : F.Fits (n * radix * F.one)) :
    x * ofNat radix + ofNat d = ofNat (n * radix + d) := by
  obtain ⟨_, rfl⟩ := isInt_natCast_iff.mp hx
  obtain ⟨_, hradix⟩ := isInt_natCast_iff.mp (ofNat_isInt hF hradix)
  obtain ⟨_, hd⟩ := isInt_natCast_iff.mp (ofNat_isInt hF hd)
  have hunits : n * F.one * (radix * F.one) = n * radix * F.one * F.one := by ac_rfl
  rw [hradix, hd, finite_mul_finite, hunits, round_mul _ hfits F.one_pos, Bool.xor_false,
    finite_add_finite, ← Nat.add_mul, ofNat]

theorem value?_neg {q : ℚ} (hx : x.value? = some q) : (-x).value? = some (-q) := by
  obtain ⟨u, hu, rfl⟩ := Option.map_eq_some_iff.mp hx
  rw [value?, units?_neg hu, Option.map_some, Int.cast_neg, neg_div]

/-- The factors of a few roundings as a relative error. -/
theorem IsNear.exists_value? {c k : Nat} (hx : x.IsNear c n)
    (hfactors : k * Nat.pow (Nat.pow 2 F.precision + 1) c ≤
      (k + 1) * Nat.pow (Nat.pow 2 F.precision) c) (hk : 0 < k) :
    ∃ q : ℚ, x.value? = some q ∧ |q - n| ≤ n / k := by
  obtain ⟨m, h, rfl, hnear⟩ := hx
  have hone : (0 : ℚ) < F.one := Nat.cast_pos.mpr F.one_pos
  have hkpos : (0 : ℚ) < k := Nat.cast_pos.mpr hk
  refine ⟨(m : ℚ) / F.one, rfl, ?_⟩
  have hm : (m : ℚ) / F.one * F.one = m := div_mul_cancel₀ _ hone.ne'
  generalize (m : ℚ) / F.one = q at hm
  have habove : k * q ≤ (k + 1) * n := by
    refine le_of_mul_le_mul_right ?_ hone
    rw [mul_assoc, hm, mul_assoc]
    exact_mod_cast hnear.notAbove.mul_le_mul (Nat.le_refl c) hfactors
  have hbelow : k * n ≤ (k + 1) * q := by
    refine le_of_mul_le_mul_right ?_ hone
    rw [mul_assoc, mul_assoc, hm]
    exact_mod_cast hnear.notBelow.mul_le_mul (Nat.le_refl c) hfactors
  rw [abs_sub_le_iff, le_div_iff₀ hkpos, le_div_iff₀ hkpos]
  refine ⟨by linarith, ?_⟩
  rcases le_total q n with hle | hle
  · linarith
  · exact (mul_nonpos_of_nonpos_of_nonneg (sub_nonpos.mpr hle) hkpos.le).trans (Nat.cast_nonneg n)

end Binary

open BinaryFormat (binary64 holdsWhole_binary64 holdsRoundings_binary64)

namespace Numeral

theorem sum_concat (radix : Nat) (digits : List Nat) (d : Nat) :
    sum radix (digits ++ [d]) = sum radix digits * .ofNat radix + .ofNat d := by
  simp only [sum, List.foldl_append, List.foldl_cons, List.foldl_nil]

theorem number_concat (radix : Nat) (digits : List Nat) (d : Nat) :
    number radix (digits ++ [d]) = number radix digits * radix + d := by
  simp only [number, List.foldl_append, List.foldl_cons, List.foldl_nil]

theorem sum_eq_ofNat_of_le {radix : Nat} (hmin : 1 ≤ radix) (hmax : radix ≤ Nat.pow 2 53)
    {digits : List Nat} (hn : number radix digits ≤ Nat.pow 2 53) :
    sum radix digits = .ofNat (number radix digits) :=
  (sum_isInt hmin hmax hn).eq_ofNat holdsWhole_binary64 hn

/-- The greatest bound up to which every run is read as the nearest number. -/
def nearestUpTo (radix : Nat) : Nat := if radix = 10 then 18014398509481992 else 144115188075855888

/-- A run of a few digits more than `2 ^ 53` has is far below the limit. -/
theorem long_lt_limit :
    11 * (Nat.pow 2 53 * Nat.pow 16 7 * binary64.one) < 10 * binary64.limit := by
  decide +kernel

theorem fits_mul_pow_of_le {n k : Nat} (hn : n < Nat.pow 2 53) (hk : k ≤ 28) :
    binary64.Fits (n * Nat.pow 2 k * binary64.one) := by
  have hpow : Nat.pow 2 k ≤ Nat.pow 16 7 := Nat.pow_le_pow_right (n := 2) (by decide) hk
  have hle : Nat.pow 2 53 * Nat.pow 2 k * binary64.one ≤
      Nat.pow 2 53 * Nat.pow 16 7 * binary64.one :=
    Nat.mul_le_mul_right _ (Nat.mul_le_mul_left _ hpow)
  have hlt : Nat.pow 2 53 * Nat.pow 16 7 * binary64.one < binary64.limit := by
    have hlimit := long_lt_limit
    omega
  exact BinaryFormat.fits_mul_pow hn (Nat.le_trans hle (Nat.le_of_lt hlt))

/-- Next to the bounds the last sum is rounded for the second time. -/
theorem sums_at_bounds :
    (∀ d ≤ 2, (Binary.ofNat 1801439850948199 : Binary64) * .ofNat 10 + .ofNat d =
      .ofNat (1801439850948199 * 10 + d)) ∧
    (Binary.ofNat 1801439850948199 : Binary64) * .ofNat 10 + .ofNat 3 ≠
      .ofNat (1801439850948199 * 10 + 3) ∧
    ((Binary.ofNat (Nat.pow 2 49) : Binary64) * .ofNat 16 + .ofNat 1) * .ofNat 16 + .ofNat 0 =
      .ofNat ((Nat.pow 2 49 * 16 + 1) * 16 + 0) ∧
    ((Binary.ofNat (Nat.pow 2 49) : Binary64) * .ofNat 16 + .ofNat 1) * .ofNat 16 + .ofNat 1 ≠
      .ofNat ((Nat.pow 2 49 * 16 + 1) * 16 + 1) := by
  decide +kernel

theorem sum_ten_eq_ofNat {digits : List Nat} (hdigits : ∀ d ∈ digits, d < 10)
    (hn : number 10 digits ≤ nearestUpTo 10) : sum 10 digits = .ofNat (number 10 digits) := by
  change _ ≤ 18014398509481992 at hn
  obtain rfl | ⟨front, d, rfl⟩ := List.eq_nil_or_concat' digits
  · exact sum_eq_ofNat_of_le (by decide) (by decide) (by decide)
  have hd := hdigits d (by simp)
  rw [number_concat] at hn ⊢
  have hfront : (sum 10 front).IsInt (number 10 front) :=
    sum_isInt (by decide) (by decide)
      (Nat.le_trans (show _ ≤ 1801439850948199 by omega) (by decide))
  rw [sum_concat]
  generalize number 10 front = p at hn hfront
  by_cases hexact : p ≤ 1801439850948198
  · have hfits : binary64.Fits (p * 5 * Nat.pow 2 1 * binary64.one) :=
      fits_mul_pow_of_le (Nat.lt_of_le_of_lt (show _ ≤ 1801439850948198 * 5 by omega) (by decide))
        (by decide)
    rw [Nat.mul_assoc p] at hfits
    exact hfront.mul_add_ofNat holdsWhole_binary64 (by decide)
      (Nat.le_trans (Nat.le_of_lt hd) (by decide)) hfits
  · -- The product is rounded for the first time, and the three sums are the nearest all the same.
    obtain rfl : p = 1801439850948199 := by omega
    rw [hfront.eq_ofNat holdsWhole_binary64 (by decide)]
    exact sums_at_bounds.1 d (by omega)

theorem sum_sixteen_eq_ofNat {digits : List Nat} (hdigits : ∀ d ∈ digits, d < 16)
    (hn : number 16 digits ≤ nearestUpTo 16) : sum 16 digits = .ofNat (number 16 digits) := by
  change _ ≤ 144115188075855888 at hn
  obtain rfl | ⟨front, d, rfl⟩ := List.eq_nil_or_concat' digits
  · exact sum_eq_ofNat_of_le (by decide) (by decide) (by decide)
  have hd := hdigits d (by simp)
  rw [number_concat] at hn ⊢
  rw [sum_concat]
  by_cases hexact : number 16 front ≤ Nat.pow 2 53
  · have hfront : (sum 16 front).IsInt (number 16 front) := sum_isInt (by decide) (by decide) hexact
    have hfits : binary64.Fits (number 16 front * 16 * binary64.one) := by
      by_cases hlt : number 16 front < Nat.pow 2 53
      · exact fits_mul_pow_of_le (k := 4) hlt (by decide)
      · rw [show number 16 front = Nat.pow 2 53 by omega,
          show Nat.pow 2 53 * 16 = Nat.pow 2 52 * Nat.pow 2 5 by decide]
        exact fits_mul_pow_of_le (by decide) (by decide)
    exact hfront.mul_add_ofNat holdsWhole_binary64 (by decide)
      (Nat.le_trans (Nat.le_of_lt hd) (by decide)) hfits
  · -- The sum before the last digit was rounded already.
    change ¬ number 16 front ≤ 9007199254740992 at hexact
    obtain rfl : d = 0 := by omega
    obtain rfl | ⟨first, e, rfl⟩ := List.eq_nil_or_concat' front
    · exact absurd (show number 16 [] = 0 from rfl) (by omega)
    have he := hdigits e (by simp)
    rw [number_concat] at hn hexact ⊢
    obtain ⟨hfirst, rfl⟩ : number 16 first = Nat.pow 2 49 ∧ e = 1 := by
      change _ = 562949953421312 ∧ _
      omega
    rw [sum_concat, sum_eq_ofNat_of_le (by decide) (by decide) (by rw [hfirst]; decide), hfirst]
    exact sums_at_bounds.2.2.1

theorem sum_isNear {radix : Nat} (hmin : 2 ≤ radix) (hmax : radix ≤ 16) {k : Nat} (hk : k ≤ 7)
    {digits : List Nat} (hdigits : ∀ d ∈ digits, d < radix)
    (hn : number radix digits < Nat.pow 2 53 * Nat.pow radix k) :
    (sum radix digits).IsNear (2 * k) (number radix digits) := by
  have hexact (digits : List Nat) (hn : number radix digits ≤ Nat.pow 2 53) :
      (sum radix digits).IsNear 0 (number radix digits) :=
    (sum_isInt (by omega) (Nat.le_trans hmax (by decide)) hn).isNear
  have hlimit {n k : Nat} (hk : k ≤ 7) (hn : n < Nat.pow 2 53 * Nat.pow radix k) :
      11 * (n * binary64.one) < 10 * binary64.limit := by
    have hpow : Nat.pow radix k ≤ Nat.pow 16 7 :=
      Nat.le_trans (Nat.pow_le_pow_left hmax k) (Nat.pow_le_pow_right (by decide) hk)
    have hle : n ≤ Nat.pow 2 53 * Nat.pow 16 7 :=
      Nat.le_trans (Nat.le_of_lt hn) (Nat.mul_le_mul_left _ hpow)
    exact Nat.lt_of_le_of_lt (Nat.mul_le_mul_left 11 (Nat.mul_le_mul_right _ hle)) long_lt_limit
  induction k generalizing digits with
  | zero => exact hexact digits (Nat.le_of_lt (by simpa using hn))
  | succ k ih =>
    by_cases hsmall : number radix digits ≤ Nat.pow 2 53
    · exact (hexact digits hsmall).mono (Nat.zero_le _)
    obtain rfl | ⟨front, d, rfl⟩ := List.eq_nil_or_concat' digits
    · exact absurd (Nat.zero_le _) hsmall
    have hd := hdigits d (by simp)
    rw [number_concat] at hn hsmall ⊢
    rw [sum_concat]
    have hproductLt : number radix front * radix < Nat.pow 2 53 * Nat.pow radix (k + 1) := by omega
    have hfront : number radix front < Nat.pow 2 53 * Nat.pow radix k := by
      have hpow : Nat.pow radix (k + 1) = Nat.pow radix k * radix := Nat.pow_succ _ _
      rw [hpow, ← Nat.mul_assoc] at hproductLt
      exact Nat.lt_of_mul_lt_mul_right hproductLt
    have hpos : 0 < number radix front := by
      refine Nat.pos_of_ne_zero fun hzero => hsmall ?_
      rw [hzero, Nat.zero_mul, Nat.zero_add]
      exact Nat.le_trans (show d ≤ 16 by omega) (by decide)
    have hradix : (Binary.ofNat radix : Binary64).IsNear 0 radix :=
      (Binary.ofNat_isInt holdsWhole_binary64 (Nat.le_trans hmax (by decide))).isNear
    have hdigit : (Binary.ofNat d : Binary64).IsNear 0 d :=
      (Binary.ofNat_isInt holdsWhole_binary64
        (Nat.le_trans (show d ≤ 16 by omega) (by decide))).isNear
    have hnear := ih (by omega) (fun e he => hdigits e (by simp [he])) hfront
    have hproduct :
        (sum radix front * .ofNat radix).IsNear (2 * k + 1) (number radix front * radix) :=
      hnear.mul holdsRoundings_binary64 hradix hpos (by omega) (by omega) (hlimit hk hproductLt)
    exact hproduct.add (c := 2 * k + 1) holdsRoundings_binary64 (hdigit.mono (Nat.zero_le _))
      (Nat.mul_pos hpos (by omega)) (by omega) (hlimit hk hn)

theorem sum_eq_ofNat {radix : Nat} (hradix : radix = 10 ∨ radix = 16) {digits : List Nat}
    (hdigits : ∀ d ∈ digits, d < radix) (hn : number radix digits ≤ nearestUpTo radix) :
    sum radix digits = .ofNat (number radix digits) := by
  rcases hradix with rfl | rfl
  · exact sum_ten_eq_ofNat hdigits hn
  · exact sum_sixteen_eq_ofNat hdigits hn

/-- The digits that a run stands for are the ones that are read. -/
theorem filterMap_eq_of_forall₂ {radix : Nat} (hradix : radix ≤ 16) {run : List Char}
    {digits : List Nat} (hdigits : List.Forall₂ (IsDigit radix) run digits) :
    run.filterMap (digit? radix) = digits := by
  induction hdigits with
  | nil => rfl
  | cons hd _ ih => rw [List.filterMap_cons_some ((digit?_eq_some_iff hradix).mpr hd), ih]

theorem lt_of_forall₂ {radix : Nat} {run : List Char} {digits : List Nat}
    (hdigits : List.Forall₂ (IsDigit radix) run digits) : ∀ d ∈ digits, d < radix := by
  induction hdigits with
  | nil => exact fun d hd => absurd hd List.not_mem_nil
  | cons hd _ ih => exact List.forall_mem_cons.mpr ⟨hd.1, ih⟩

namespace Parts

def withSign {α : Type} [Neg α] (p : Parts) (a : α) : α := if p.sign = ['-'] then -a else a

/-- The run is not empty and stands for a natural number. -/
def Denotes (p : Parts) (n : Nat) : Prop :=
  p.run ≠ [] ∧ ∃ digits, List.Forall₂ (IsDigit p.radix) p.run digits ∧ number p.radix digits = n

theorem Of.parseInteger_eq {p : Parts} {text : String} (hp : p.Of text.toList) {n : Nat}
    (hn : p.Denotes n) :
    ∃ digits, (∀ d ∈ digits, d < p.radix) ∧ number p.radix digits = n ∧
      parseInteger text = p.withSign (sum p.radix digits) := by
  obtain ⟨hrun, digits, hdigits, hnumber⟩ := hn
  refine ⟨digits, lt_of_forall₂ hdigits, hnumber, ?_⟩
  have hsome : ¬ digits.isEmpty = true := by
    rw [List.isEmpty_iff, ← List.length_eq_zero_iff, ← hdigits.length_eq, List.length_eq_zero_iff]
    exact hrun
  rw [parseInteger, hp.read_eq, filterMap_eq_of_forall₂ p.radix_bounds.2 hdigits, value,
    if_neg hsome, withSign]
  simp only [decide_eq_true_eq]

theorem exists_denotes {text : String} {negative : Bool} {radix : Nat} {digits : List Nat}
    (hread : read text.toList = ⟨negative, radix, digits⟩) (hsome : digits ≠ []) :
    ∃ p : Parts, p.Of text.toList ∧ p.radix = radix ∧ p.Denotes (number radix digits) ∧
      decide (p.sign = ['-']) = negative := by
  obtain ⟨p, hp⟩ := exists_of text.toList
  rw [hp.read_eq, Numeral.mk.injEq] at hread
  obtain ⟨hsign, rfl, rfl⟩ := hread
  refine ⟨p, hp, rfl, ⟨fun hrun => hsome ?_, _, ?_, rfl⟩, hsign⟩
  · rw [hrun]
    rfl
  · exact forall₂_digits p.radix_bounds.2 hp.digits

end Parts

end Numeral

/-- Above the bound of its radix, one number is not read as the nearest. -/
theorem exists_not_nearest {radix : Nat} (hradix : radix = 10 ∨ radix = 16) :
    ∃ (text : String) (p : Numeral.Parts), p.Of text.toList ∧ p.radix = radix ∧
      p.Denotes (Numeral.nearestUpTo radix + 1) ∧
      parseInteger text ≠ p.withSign (.ofNat (Numeral.nearestUpTo radix + 1)) := by
  rcases hradix with rfl | rfl
  · have hread : Numeral.read "18014398509481993".toList =
        ⟨false, 10, [1, 8, 0, 1, 4, 3, 9, 8, 5, 0, 9, 4, 8, 1, 9, 9] ++ [3]⟩ := by decide
    obtain ⟨p, hp, hradix, hn, hsign⟩ := Numeral.Parts.exists_denotes hread (by decide)
    refine ⟨_, p, hp, hradix, hn, ?_⟩
    rw [Numeral.Parts.withSign, if_neg (of_decide_eq_false hsign), parseInteger, hread,
      Numeral.value, if_neg (by decide), if_neg (by decide), Numeral.sum_concat,
      Numeral.sum_eq_ofNat_of_le (by decide) (by decide) (by decide)]
    exact Numeral.sums_at_bounds.2.1
  · have hread : Numeral.read "0x200000000000011".toList =
        ⟨false, 16, [2, 0, 0, 0, 0, 0, 0, 0, 0, 0, 0, 0, 0] ++ [1] ++ [1]⟩ := by decide
    obtain ⟨p, hp, hradix, hn, hsign⟩ := Numeral.Parts.exists_denotes hread (by decide)
    refine ⟨_, p, hp, hradix, hn, ?_⟩
    rw [Numeral.Parts.withSign, if_neg (of_decide_eq_false hsign), parseInteger, hread,
      Numeral.value, if_neg (by decide), if_neg (by decide), Numeral.sum_concat,
      Numeral.sum_concat, Numeral.sum_eq_ofNat_of_le (by decide) (by decide) (by decide)]
    exact Numeral.sums_at_bounds.2.2.2

/--
All integers up to a bound are read as the nearest number exactly if the bound is not above the one
of their radix. An integer of up to twenty digits is read with a relative error of at most
`2 ^ -49`.
-/
theorem parseInteger_nearest_iff {radix : Nat} (hradix : radix = 10 ∨ radix = 16) (bound : Nat) :
    ((∀ (text : String) (p : Numeral.Parts) (n : Nat), p.Of text.toList → p.radix = radix →
        p.Denotes n → n ≤ bound → parseInteger text = p.withSign (.ofNat n)) ↔
      bound ≤ Numeral.nearestUpTo radix) ∧
    ∀ (text : String) (p : Numeral.Parts) (n : Nat), p.Of text.toList → p.radix = radix →
      p.Denotes n → n < radix ^ 20 →
      ∃ q : ℚ, (parseInteger text).value? = some q ∧ |q - p.withSign (n : ℚ)| ≤ n / 2 ^ 49 := by
  refine ⟨⟨fun hall => ?_, ?_⟩, ?_⟩
  · obtain ⟨text, p, hp, hpradix, hn, hne⟩ := exists_not_nearest hradix
    exact Nat.not_lt.mp fun hlt => hne (hall text p _ hp hpradix hn hlt)
  · rintro hbound text p n hp rfl hn hle
    obtain ⟨digits, hdigits, rfl, htext⟩ := hp.parseInteger_eq hn
    rw [htext, Numeral.sum_eq_ofNat hradix hdigits (Nat.le_trans hle hbound)]
  · rintro text p n hp rfl hn hlt
    obtain ⟨digits, hdigits, rfl, htext⟩ := hp.parseInteger_eq hn
    have hmin : 2 ≤ p.radix := by omega
    have hsmall : Numeral.number p.radix digits < Nat.pow 2 53 * Nat.pow p.radix 7 := by
      refine Nat.lt_of_lt_of_le hlt ?_
      rcases hradix with hradix | hradix <;> rw [hradix] <;> decide
    have hnear := Numeral.sum_isNear hmin p.radix_bounds.2 (Nat.le_refl 7) hdigits hsmall
    obtain ⟨q, hq, herror⟩ := hnear.exists_value? (k := 2 ^ 49) (by decide +kernel) (by decide)
    rw [Nat.cast_pow, Nat.cast_ofNat] at herror
    rw [htext]
    by_cases hsign : p.sign = ['-']
    · refine ⟨-q, ?_, ?_⟩
      · rw [Numeral.Parts.withSign, if_pos hsign]
        exact Binary.value?_neg hq
      · rwa [Numeral.Parts.withSign, if_pos hsign, neg_sub_neg, abs_sub_comm]
    · refine ⟨q, ?_, ?_⟩
      · rwa [Numeral.Parts.withSign, if_neg hsign]
      · rwa [Numeral.Parts.withSign, if_neg hsign]

/-- Twenty digits are too many to be read as the nearest number, but the error is small. -/
theorem parseInteger_nearest_iff_twenty_digits :
    (10 = 10 ∨ 10 = 16) ∧
    (¬ ∀ (text : String) (p : Numeral.Parts) (n : Nat), p.Of text.toList → p.radix = 10 →
      p.Denotes n → n ≤ 99999999999999999999 → parseInteger text = p.withSign (.ofNat n)) ∧
    ∃ q : ℚ, (parseInteger "-99999999999999999999").value? = some q ∧
      |q - -99999999999999999999| ≤ 99999999999999999999 / 2 ^ 49 := by
  obtain ⟨hiff, herror⟩ := parseInteger_nearest_iff (.inl rfl) 99999999999999999999
  have hread : Numeral.read "-99999999999999999999".toList =
      ⟨true, 10, [9, 9, 9, 9, 9, 9, 9, 9, 9, 9, 9, 9, 9, 9, 9, 9, 9, 9, 9, 9]⟩ := by decide +kernel
  obtain ⟨p, hp, hradix, hn, hsign⟩ := Numeral.Parts.exists_denotes hread (by decide)
  refine ⟨.inl rfl, fun hall => absurd (hiff.mp hall) (by decide), ?_⟩
  obtain ⟨q, hq, hle⟩ := herror _ p _ hp hradix hn (by decide)
  rw [Numeral.Parts.withSign, if_pos (of_decide_eq_true hsign)] at hle
  exact ⟨q, hq, by exact_mod_cast hle⟩

/-- The least integers of either radix that are not read as the nearest number. -/
theorem parseInteger_not_nearest :
    parseInteger "18014398509481993" = .ofNat 18014398509481996 ∧
      parseInteger "18014398509481993" ≠ .ofNat 18014398509481993 ∧
    parseInteger "0x200000000000011" = .ofNat 144115188075855872 ∧
      parseInteger "0x200000000000011" ≠ .ofNat 144115188075855889 := by
  decide +kernel

end PageScript
