import Mathlib.Algebra.Order.Field.Basic
import Mathlib.Algebra.Order.Field.Rat
import Mathlib.Algebra.Group.Even
import Mathlib.Tactic.FieldSimp
import Mathlib.Tactic.Ring
import PageScript.Proofs.Rounding

/-!
# Rounding to the nearest, ties to even

`BinaryFormat.nearest` rounds on the grid around the quotient only. Main statement: of all
magnitudes that a format has, however great, the result is the nearest, and of two that are equally
near it is the one with the even significand. Magnitudes on a finer part of the grid are further
away than the power of two where the grid became coarser.
-/

namespace PageScript

section Quotient

variable {n t : Nat}

/-- The multiples of a step on either side of a number. -/
theorem roundQuotient_sides (n : Nat) (q t : Nat) :
    q ≤ n / t ∧ q * t ≤ n / t * t ∨ n / t < q ∧ n / t * t + t ≤ q * t := by
  rcases Nat.lt_or_ge (n / t) q with hlt | hle
  · refine .inr ⟨hlt, ?_⟩
    rw [← Nat.succ_mul]
    exact Nat.mul_le_mul_right t hlt
  · exact .inl ⟨hle, Nat.mul_le_mul_right t hle⟩

theorem roundQuotient_nearest (n : Nat) (ht : 0 < t) (q : Nat) :
    ((n : Int) - (roundQuotient n t * t : Nat)).natAbs ≤ ((n : Int) - (q * t : Nat)).natAbs := by
  have hdiv := Nat.div_add_mod' n t
  have hmod := Nat.mod_lt n ht
  have hsides := roundQuotient_sides n q t
  rw [roundQuotient_eq]
  split
  · rw [Nat.succ_mul]
    omega
  · omega

theorem roundQuotient_even (ht : 0 < t) {q : Nat} (hq : q ≠ roundQuotient n t)
    (hsame : ((n : Int) - (roundQuotient n t * t : Nat)).natAbs =
      ((n : Int) - (q * t : Nat)).natAbs) : roundQuotient n t % 2 = 0 := by
  have hdiv := Nat.div_add_mod' n t
  have hmod := Nat.mod_lt n ht
  have hsides := roundQuotient_sides n q t
  have hbelow : q < n / t → q * t + t ≤ n / t * t := fun hlt => by
    rw [← Nat.succ_mul]
    exact Nat.mul_le_mul_right t hlt
  have habove : n / t + 1 < q → n / t * t + 2 * t ≤ q * t := fun hlt => by
    rw [← Nat.add_mul]
    exact Nat.mul_le_mul_right t hlt
  rw [roundQuotient_eq] at hq hsame ⊢
  by_cases hup : t < 2 * (n % t) ∨ 2 * (n % t) = t ∧ n / t % 2 = 1
  · rw [if_pos hup] at hq hsame ⊢
    rw [Nat.succ_mul] at hsame
    omega
  · rw [if_neg hup] at hq hsame ⊢
    omega

end Quotient

namespace BinaryFormat

/--
Of all magnitudes that the format has, this one is nearest to a number of units. If another one is
equally near, this one has the even significand.
-/
structure IsNearest (F : BinaryFormat) (q : ℚ) (m : Nat) : Prop where
  onGrid : F.OnGrid m
  near : ∀ m', F.OnGrid m' → |q - m| ≤ |q - m'|
  even : ∀ m', F.OnGrid m' → m' ≠ m → |q - m| = |q - m'| → Even (m / F.spacing m)

variable {F : BinaryFormat} {n d m m' : Nat}

/-- A magnitude on a finer grid is below a power of two that is on the coarser one. -/
theorem exists_multiple_of_not_dvd (hm : F.OnGrid m) (hdvd : ¬ F.spacing m' ∣ m) :
    ∃ q, m < q * F.spacing m' ∧ q * F.spacing m' ≤ m' := by
  have hexponent : F.gridExponent m < F.gridExponent m' := by
    refine Nat.not_le.mp fun hle => hdvd ?_
    exact Nat.dvd_trans (Nat.pow_dvd_pow 2 hle) hm
  have hlog : m.log2 + 1 ≤ m'.log2 ∧ F.gridExponent m' ≤ m'.log2 := by
    simp only [gridExponent, precision] at hexponent ⊢
    omega
  have hne : m' ≠ 0 := by
    rintro rfl
    rw [Nat.log2_zero] at hlog
    omega
  obtain ⟨q, hq⟩ : F.spacing m' ∣ Nat.pow 2 m'.log2 := Nat.pow_dvd_pow 2 hlog.2
  refine ⟨q, ?_, ?_⟩
  · rw [Nat.mul_comm, ← hq]
    exact Nat.lt_of_lt_of_le Nat.lt_log2_self (Nat.pow_le_pow_right (by decide) hlog.1)
  · rw [Nat.mul_comm, ← hq]
    exact Nat.log2_self_le hne

section Distance

variable (hd : 0 < d)
include hd

/-- How far a quotient is from a magnitude on the grid, compared to the one it is rounded to. -/
theorem nearest_distance (hm : F.OnGrid m) :
    ((n : Int) - (d * F.nearest n d : Nat)).natAbs ≤ ((n : Int) - (d * m : Nat)).natAbs ∧
      (m ≠ F.nearest n d →
        ((n : Int) - (d * F.nearest n d : Nat)).natAbs = ((n : Int) - (d * m : Nat)).natAbs →
        roundQuotient n (d * F.spacing (n / d)) % 2 = 0) := by
  have hpos : 0 < d * F.spacing (n / d) := Nat.mul_pos hd (F.spacing_pos _)
  have hmultiple (q : Nat) : q * (d * F.spacing (n / d)) = d * (q * F.spacing (n / d)) :=
    Nat.mul_left_comm q d _
  have hnearest := roundQuotient_nearest n hpos
  have heven (q : Nat) := roundQuotient_even (n := n) (q := q) hpos
  simp only [hmultiple] at hnearest heven
  change ∀ q, ((n : Int) - (d * F.nearest n d : Nat)).natAbs ≤ _ at hnearest
  change ∀ q, _ → ((n : Int) - (d * F.nearest n d : Nat)).natAbs = _ → _ at heven
  by_cases hdvd : F.spacing (n / d) ∣ m
  · obtain ⟨q, rfl⟩ := hdvd
    rw [Nat.mul_comm (F.spacing (n / d))]
    refine ⟨hnearest q, fun hne => heven q ?_⟩
    rintro rfl
    exact hne rfl
  · obtain ⟨q, hlt, hle⟩ := exists_multiple_of_not_dvd hm hdvd
    have hfar := hnearest q
    have hlt' : d * m < d * (q * F.spacing (n / d)) := Nat.mul_lt_mul_of_pos_left hlt hd
    have hle' : d * (q * F.spacing (n / d)) ≤ n :=
      Nat.le_trans (Nat.mul_le_mul_left d hle) (Nat.mul_div_le n d)
    omega

theorem abs_quotient_sub (m : Nat) :
    |(n : ℚ) / d - m| = (((n : Int) - (d * m : Nat)).natAbs : ℚ) / d := by
  have hne : (d : ℚ) ≠ 0 := Nat.cast_ne_zero.mpr (Nat.ne_of_gt hd)
  have hsub : (n : ℚ) / d - m = (((n : Int) - (d * m : Nat) : Int) : ℚ) / d := by
    push_cast
    field_simp
  rw [hsub, abs_div, Nat.abs_cast, Nat.cast_natAbs, Int.cast_abs]

end Distance

/-- Unless it is rounded up to the next power of two, the result is on the same grid. -/
theorem gridExponent_nearest
    (hlt : roundQuotient n (d * F.spacing (n / d)) < Nat.pow 2 F.precision) :
    F.gridExponent (F.nearest n d) = F.gridExponent (n / d) := by
  have hlower := F.le_nearest (n := n) (d := d)
  have hupper : F.nearest n d < 2 ^ (F.precision + F.gridExponent (n / d)) := by
    rw [Nat.pow_add]
    exact Nat.mul_lt_mul_of_pos_right hlt (F.spacing_pos _)
  generalize F.nearest n d = m at hlower hupper
  generalize F.gridExponent (n / d) = g at hlower hupper
  obtain rfl | hm := Nat.eq_zero_or_pos m
  · have hg : g = 0 := by
      by_contra hg
      exact Nat.not_lt.mpr (hlower hg) (Nat.two_pow_pos _)
    rw [hg, gridExponent, Nat.log2_zero, precision]
    omega
  · have hlog := (Nat.log2_lt (Nat.ne_of_gt hm)).mpr hupper
    have hlog' : g ≠ 0 → F.fractionBits + g ≤ m.log2 := fun hg =>
      (Nat.le_log2 (Nat.ne_of_gt hm)).mpr (hlower hg)
    rw [gridExponent]
    simp only [precision] at hlog ⊢
    omega

theorem even_significand (hF : 0 < F.fractionBits)
    (heven : roundQuotient n (d * F.spacing (n / d)) % 2 = 0) :
    Even (F.nearest n d / F.spacing (F.nearest n d)) := by
  have hunits : F.nearest n d = roundQuotient n (d * F.spacing (n / d)) * F.spacing (n / d) := rfl
  by_cases hlt : roundQuotient n (d * F.spacing (n / d)) < Nat.pow 2 F.precision
  · have hspacing : F.spacing (F.nearest n d) = F.spacing (n / d) :=
      congrArg (Nat.pow 2) (gridExponent_nearest hlt)
    rw [hspacing, hunits, Nat.mul_div_cancel _ (F.spacing_pos _)]
    exact Nat.even_iff.mpr heven
  · have hcarry : roundQuotient n (d * F.spacing (n / d)) = Nat.pow 2 F.precision := by
      have hquotient := F.div_spacing_lt n d
      have hle := roundQuotient_le n (d * F.spacing (n / d))
      omega
    have hpower : F.nearest n d = 2 ^ (F.precision + F.gridExponent (n / d)) := by
      rw [hunits, hcarry, spacing, Nat.pow_eq, Nat.pow_eq, Nat.pow_add]
    generalize F.gridExponent (n / d) = g at hpower
    have hexponent : F.gridExponent (F.nearest n d) = g + 1 := by
      rw [hpower, gridExponent, Nat.log2_two_pow]
      omega
    rw [spacing, hexponent, hpower, Nat.pow_eq, Nat.pow_div (by rw [precision]; omega) (by decide)]
    exact even_two.pow_of_ne_zero (by rw [precision]; omega)

theorem nearest_isNearest (hF : 0 < F.fractionBits) (n : Nat) (hd : 0 < d) :
    F.IsNearest ((n : ℚ) / d) (F.nearest n d) := by
  have hdpos : (0 : ℚ) < d := Nat.cast_pos.mpr hd
  refine ⟨F.nearest_onGrid n d, fun m hm => ?_, fun m hm hne hsame => ?_⟩
  · rw [abs_quotient_sub hd, abs_quotient_sub hd]
    gcongr
    exact (nearest_distance hd hm).1
  · rw [abs_quotient_sub hd, abs_quotient_sub hd, div_left_inj' (ne_of_gt hdpos),
      Nat.cast_inj] at hsame
    exact even_significand hF ((nearest_distance hd hm).2 hne hsame)

end BinaryFormat

end PageScript
