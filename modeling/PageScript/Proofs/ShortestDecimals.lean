import Mathlib.Algebra.Order.Field.Power
import PageScript.Decimal
import PageScript.Proofs.NearestEven

/-!
# Shortest decimals read back

Whichever grid the search for a decimal ends on, and also if it ends without one, the decimal is
rounded to the magnitude that it was made from. It has no zero at its end, and for a whole number it
has no digit behind the point.
-/

namespace PageScript.Decimal

variable {F : BinaryFormat} {m : Nat} {d : Decimal} {e : Int}

def value (d : Decimal) : ℚ := d.coefficient * (10 : ℚ) ^ d.exponent

theorem quotient_eq_value (F : BinaryFormat) (d : Decimal) :
    ((d.quotient F).1 : ℚ) / (d.quotient F).2 = d.value * F.one := by
  have hpow : (10 : ℚ) ^ d.exponent = 10 ^ d.exponent.toNat / 10 ^ (-d.exponent).toNat := by
    rw [← zpow_natCast, ← zpow_natCast, ← zpow_sub₀ (by norm_num)]
    congr 1
    omega
  rw [value, hpow]
  simp only [quotient, Nat.pow_eq]
  push_cast
  ring

/-- Reading a decimal is one rounding of its value. -/
theorem nearest_isNearest (hF : 0 < F.fractionBits) (d : Decimal) :
    F.IsNearest (d.value * F.one) (d.nearest F) := by
  rw [← quotient_eq_value]
  exact BinaryFormat.nearest_isNearest hF _ (Nat.pow_pos (by decide))

theorem nearest_zero (e : Int) : Decimal.nearest F ⟨0, e⟩ = 0 := by
  have hzero := F.nearest_mul F.fits_zero.1 (show 0 < Nat.pow 10 (-e).toNat from
    Nat.pow_pos (by decide))
  rw [Nat.zero_mul] at hzero
  simpa only [Decimal.nearest, quotient, Nat.zero_mul] using hzero

/-- A zero at the end of the coefficient may go to the exponent. -/
theorem nearest_shift (c : Nat) (e : Int) :
    Decimal.nearest F ⟨c, e + 1⟩ = Decimal.nearest F ⟨c * 10, e⟩ := by
  simp only [Decimal.nearest, quotient]
  by_cases he : 0 ≤ e
  · have hup : (e + 1).toNat = e.toNat + 1 := by omega
    have hdown : (-(e + 1)).toNat = (-e).toNat := by omega
    rw [hup, hdown, Nat.pow_eq, Nat.pow_succ', ← Nat.mul_assoc]
    rfl
  · have hup : (e + 1).toNat = e.toNat := by omega
    have hdown : (-e).toNat = (-(e + 1)).toNat + 1 := by omega
    rw [hup, hdown, Nat.pow_eq, Nat.pow_eq, Nat.pow_eq, Nat.pow_succ,
      ← F.nearest_mul_mul _ _ (show 0 < 10 by decide)]
    congr 1
    ac_rfl

/-- Zeros at the end of the coefficient may go to the exponent. -/
theorem nearest_mul_pow (F : BinaryFormat) (c k : Nat) (e : Int) :
    Decimal.nearest F ⟨c * Nat.pow 10 k, e⟩ = Decimal.nearest F ⟨c, e + k⟩ := by
  induction k generalizing e with
  | zero => simp
  | succ k ih =>
    have hpow : c * Nat.pow 10 (k + 1) = c * Nat.pow 10 k * 10 := by
      rw [Nat.pow_eq, Nat.pow_succ, Nat.mul_assoc]
      rfl
    rw [hpow, ← nearest_shift, ih]
    congr 2
    omega

theorem nearest_strip (F : BinaryFormat) (d : Decimal) : d.strip.nearest F = d.nearest F := by
  induction d using Decimal.strip.induct with
  | case1 d hzero ih =>
    rw [Decimal.strip, if_pos hzero, ih, nearest_shift,
      Nat.div_mul_cancel (Nat.dvd_of_mod_eq_zero hzero.2)]
  | case2 d hzero => rw [Decimal.strip, if_neg hzero]

theorem strip_coefficient_mod (hd : d.coefficient ≠ 0) : d.strip.coefficient % 10 ≠ 0 := by
  induction d using Decimal.strip.induct with
  | case1 d hzero ih =>
    rw [Decimal.strip, if_pos hzero]
    exact ih (by simp only; omega)
  | case2 d hzero =>
    rw [Decimal.strip, if_neg hzero]
    exact fun hmod => hzero ⟨hd, hmod⟩

/-- All zeros at the end of the coefficient go to the exponent. -/
theorem le_strip_exponent {k : Nat} (hd : d.coefficient ≠ 0) (hk : Nat.pow 10 k ∣ d.coefficient) :
    d.exponent + k ≤ d.strip.exponent := by
  induction d using Decimal.strip.induct generalizing k with
  | case1 d hzero ih =>
    rw [Decimal.strip, if_pos hzero]
    cases k with
    | zero =>
      have hle := ih (k := 0) (by simp only; omega) (Nat.one_dvd _)
      simp only at hle
      omega
    | succ k =>
      have hdvd : Nat.pow 10 k ∣ d.coefficient / 10 := by
        rw [Nat.pow_eq, Nat.pow_succ] at hk
        exact Nat.dvd_div_of_mul_dvd (by rwa [Nat.mul_comm])
      have hle := ih (by simp only; omega) hdvd
      simp only at hle
      omega
  | case2 d hzero =>
    rw [Decimal.strip, if_neg hzero]
    cases k with
    | zero => simp
    | succ k =>
      have hten : 10 ∣ d.coefficient := Nat.dvd_trans (Dvd.intro_left _ (Nat.pow_succ 10 k).symm) hk
      exact absurd ⟨hd, Nat.mod_eq_zero_of_dvd hten⟩ hzero

theorem neighbour?_eq_some (h : neighbour? F m e = some d) : d.nearest F = m ∧ d.exponent = e := by
  simp only [neighbour?] at h
  split at h
  · next hlower =>
    cases h
    exact ⟨eq_of_beq (Bool.and_eq_true_iff.mp hlower).1, rfl⟩
  · split at h
    · next hupper =>
      cases h
      exact ⟨eq_of_beq hupper, rfl⟩
    · cases h

theorem nearest_search {grids : Nat} (h : search F m grids e = some d) : d.nearest F = m := by
  induction grids generalizing e with
  | zero => cases h
  | succ grids ih =>
    rw [search] at h
    split at h
    · next hd =>
      cases h
      exact (neighbour?_eq_some hd).1
    · exact ih h

theorem exact_eq (F : BinaryFormat) (m : Nat) :
    ∃ k, F.one = Nat.pow 2 k ∧ exact F m = ⟨m * Nat.pow 5 k, -(k : Int)⟩ := by
  obtain ⟨k, hk⟩ : ∃ k, F.one = Nat.pow 2 k := ⟨_, rfl⟩
  have hlog : F.one.log2 = k := by rw [hk, Nat.pow_eq, Nat.log2_two_pow]
  exact ⟨k, hk, by rw [exact, hlog]⟩

theorem nearest_exact (hm : F.OnGrid m) : (exact F m).nearest F = m := by
  obtain ⟨k, hone, hexact⟩ := exact_eq F m
  have hunits : m * Nat.pow 5 k * Nat.pow 10 (-(k : Int)).toNat * F.one = m * Nat.pow 10 k := by
    rw [hone, show (-(k : Int)).toNat = 0 by omega]
    simp only [Nat.pow_eq, Nat.pow_zero, Nat.mul_one]
    rw [Nat.mul_assoc, ← Nat.mul_pow]
  rw [hexact, Decimal.nearest, quotient]
  simp only [hunits, Int.neg_neg, Int.toNat_natCast]
  exact F.nearest_mul hm (Nat.pow_pos (by decide))

theorem nearest_shortest (hm : F.OnGrid m) : (shortest F m).nearest F = m := by
  rw [shortest, nearest_strip]
  cases hsearch : search F m 17 (leadingExponent F m) with
  | none => exact nearest_exact hm
  | some d => exact nearest_search hsearch

/-- A decimal that reads back as something else than zero has digits. -/
theorem coefficient_ne_zero (hd : d.nearest F = m) (hm : 0 < m) : d.coefficient ≠ 0 := by
  obtain ⟨c, e⟩ := d
  rintro rfl
  rw [nearest_zero] at hd
  omega

theorem shortest_coefficient_mod (hm : F.OnGrid m) (hpos : 0 < m) :
    (shortest F m).coefficient % 10 ≠ 0 := by
  have hread := nearest_shortest hm
  rw [shortest] at hread ⊢
  rw [nearest_strip] at hread
  exact strip_coefficient_mod (coefficient_ne_zero hread hpos)

section Whole

variable {n : Nat} (hn : F.OnGrid (n * F.one))
include hn

/-- A whole number is on the grid of ones. -/
theorem neighbour?_ones : neighbour? F (n * F.one) 0 = some ⟨n, 0⟩ := by
  have hsteps : steps F (n * F.one) 0 = (n * F.one, F.one) := by simp [steps]
  have hread : Decimal.nearest F ⟨n, 0⟩ = n * F.one := by
    simpa [Decimal.nearest, quotient] using F.nearest_self hn
  simp only [neighbour?, hsteps, Nat.mul_div_cancel n F.one_pos, Nat.mul_mod_left, hread]
  simp [F.one_pos]

/-- So the search does not go behind the point. -/
theorem search_exponent_nonneg {grids : Nat} (he : 0 ≤ e)
    (h : search F (n * F.one) grids e = some d) : 0 ≤ d.exponent := by
  induction grids generalizing e with
  | zero => cases h
  | succ grids ih =>
    rw [search] at h
    split at h
    · next hd =>
      cases h
      rw [(neighbour?_eq_some hd).2]
      exact he
    · next hnone =>
      refine ih ?_ h
      by_contra hneg
      rw [show e = 0 by omega, neighbour?_ones hn] at hnone
      cases hnone

end Whole

theorem shortest_exponent_nonneg (hm : F.OnGrid m) (hpos : 0 < m) (hwhole : F.one ∣ m) :
    0 ≤ (shortest F m).exponent := by
  obtain ⟨n, rfl⟩ := hwhole
  rw [Nat.mul_comm] at hm hpos ⊢
  have hstrip {d : Decimal} (hread : d.nearest F = n * F.one) (k : Nat)
      (hk : Nat.pow 10 k ∣ d.coefficient) : d.exponent + k ≤ d.strip.exponent :=
    le_strip_exponent (coefficient_ne_zero hread hpos) hk
  have hleading : 0 ≤ leadingExponent F (n * F.one) := by
    have hlength := Nat.length_toDigits_pos (b := 10) (n := n * F.one / F.one)
    rw [leadingExponent, if_pos (Nat.le_of_dvd hpos (Nat.dvd_mul_left _ _))]
    omega
  rw [shortest]
  cases hsearch : search F (n * F.one) 17 (leadingExponent F (n * F.one)) with
  | none =>
    obtain ⟨k, hone, hexact⟩ := exact_eq F (n * F.one)
    have hzeros : Nat.pow 10 k ∣ (exact F (n * F.one)).coefficient := by
      refine ⟨n, ?_⟩
      rw [hexact, hone]
      simp only [Nat.pow_eq]
      rw [show 10 = 2 * 5 from rfl, Nat.mul_pow]
      ac_rfl
    have hle := hstrip (nearest_exact hm) k hzeros
    rw [hexact] at hle ⊢
    simp only [Option.getD_none] at hle ⊢
    omega
  | some d =>
    have hle := hstrip (nearest_search hsearch) 0 (Nat.one_dvd _)
    have hnonneg := search_exponent_nonneg hm hleading hsearch
    simp only [Option.getD_some]
    omega

end PageScript.Decimal
