import PageScript.Number.Elementary
import PageScript.Proofs.HalfUp
import PageScript.Proofs.RoundingErrors

/-!
# Rounding to tens, hundreds and so on

Rounding a whole number to negative places divides it by a power of ten, rounds the quotient to a
whole number and multiplies again. The powers of ten up to `10 ^ 16` are exact, and beyond that the
quotient is too small to be rounded to anything but zero, however the power itself was rounded.

Main statement: the result is the exact one for all whole numbers up to `2 ^ 53` and all places down
to the last power of ten that is finite. The quotient is rounded, but never onto or across a half
way point.
-/

namespace PageScript

theorem pow_ten_mul_le {p q : Nat} (h : p ≤ q) (units : Nat) :
    Nat.pow 10 p * units ≤ Nat.pow 10 q * units :=
  Nat.mul_le_mul_right units (Nat.pow_le_pow_right (by decide) h)

namespace BinaryFormat

/-- Powers of ten in a format: up to one exponent they are exact, and up to another they are finite,
with all the roundings of their factors. -/
structure HoldsPowers (F : BinaryFormat) (exact greatest : Nat) : Prop extends
    F.HoldsRoundings greatest where
  le : exact ≤ greatest
  odd : Nat.pow 5 exact < Nat.pow 2 F.precision
  limit : 11 * (Nat.pow 10 greatest * F.one) < 10 * F.limit

theorem holdsPowers_binary64 : binary64.HoldsPowers 22 308 where
  toHoldsRoundings := holdsRoundings_binary64
  le := by decide
  odd := by decide
  limit := by decide +kernel

namespace HoldsPowers

variable {F : BinaryFormat} {exact greatest p : Nat} (hF : F.HoldsPowers exact greatest)
include hF

theorem lt_limit (hp : p ≤ greatest) : 11 * (Nat.pow 10 p * F.one) < 10 * F.limit := by
  have hpow := pow_ten_mul_le hp F.one
  have hlimit := hF.limit
  omega

/-- Half of the factors of a power of ten are twos, and these are left to the exponent. -/
theorem fits (hp : p ≤ exact) : F.Fits (Nat.pow 10 p * F.one) := by
  have hlimit := hF.lt_limit (Nat.le_trans hp hF.le)
  refine ⟨?_, by omega⟩
  obtain ⟨k, hk⟩ : ∃ k, F.one = Nat.pow 2 k := ⟨_, rfl⟩
  have hfactors : Nat.pow 10 p * F.one = Nat.pow 5 p * Nat.pow 2 (p + k) := by
    rw [hk]
    simp only [Nat.pow_eq, Nat.pow_add]
    rw [show 10 = 5 * 2 from rfl, Nat.mul_pow, Nat.mul_assoc]
  rw [hfactors]
  exact F.onGrid_mul_pow _ _
    (Nat.lt_of_le_of_lt (Nat.pow_le_pow_right (by decide) hp) hF.odd)

end HoldsPowers

end BinaryFormat

namespace Binary

variable {F : BinaryFormat} {x y : Binary F} {c d p q exact greatest : Nat}

/-- The number is a power of ten, up to so many roundings. -/
def IsPowerOfTen (x : Binary F) (roundings p : Nat) : Prop := x.IsNear roundings (Nat.pow 10 p)

theorem IsPowerOfTen.eq_finite (hx : x.IsPowerOfTen 0 p) :
    ∃ h, x = .finite false (Nat.pow 10 p * F.one) h := by
  obtain ⟨m, h, rfl, hnear⟩ := hx
  obtain rfl := hnear.eq
  exact ⟨h, rfl⟩

/-- A product has one rounding more than its factors together, unless it is exact. -/
theorem IsPowerOfTen.mul (hF : F.HoldsPowers exact greatest) (hx : x.IsPowerOfTen c p)
    (hy : y.IsPowerOfTen d q) (hc : c ≤ p) (hd : d < q) (hbound : p + q ≤ greatest) :
    ∃ e ≤ c + d + 1, (c = 0 → d = 0 → p + q ≤ exact → e = 0) ∧
      (x * y).IsPowerOfTen e (p + q) := by
  have hpow : Nat.pow 10 (p + q) = Nat.pow 10 p * Nat.pow 10 q := Nat.pow_add 10 p q
  by_cases hsmall : c = 0 ∧ d = 0 ∧ p + q ≤ exact
  · obtain ⟨rfl, rfl, hle⟩ := hsmall
    obtain ⟨hxfits, rfl⟩ := hx.eq_finite
    obtain ⟨hyfits, rfl⟩ := hy.eq_finite
    refine ⟨0, Nat.zero_le _, fun _ _ _ => rfl, _, hF.fits hle, ?_, .refl 0 _⟩
    rw [finite_mul_finite, Bool.xor_false, ← round_mul false (hF.fits hle) F.one_pos, hpow]
    congr 1
    ac_rfl
  · refine ⟨c + d + 1, Nat.le_refl _, fun hc hd hle => absurd ⟨hc, hd, hle⟩ hsmall, ?_⟩
    have hlimit := hF.lt_limit hbound
    rw [IsPowerOfTen, hpow] at *
    exact hx.mul hF.toHoldsRoundings hy (Nat.pow_pos (by decide)) (Nat.pow_pos (by decide))
      (by omega) hlimit

/-- Repeated squaring, with the roundings of all its products. -/
theorem IsPowerOfTen.powerLoop (hF : F.HoldsPowers exact greatest) {k : Nat}
    (hx : x.IsPowerOfTen c p) (hy : y.IsPowerOfTen d q) (hc : c ≤ p) (hd : d < q)
    (hbound : p + q * k ≤ greatest) :
    ∃ e ≤ p + q * k, (c = 0 → d = 0 → p + q * k ≤ exact → e = 0) ∧
      (powerLoop x y k).IsPowerOfTen e (p + q * k) := by
  induction k using Nat.strongRecOn generalizing x y c d p q with
  | ind k ih =>
    have hhalves : q * k = q * (k % 2) + (q + q) * (k / 2) := by
      calc q * k = q * (k % 2 + 2 * (k / 2)) := by rw [Nat.mod_add_div]
        _ = q * (k % 2) + (q + q) * (k / 2) := by
          rw [Nat.mul_add, ← Nat.mul_assoc, Nat.mul_two]
    -- The factor of the lowest bit first, then the square for the bits above it.
    have hfactor : ∃ e ≤ p + q * (k % 2), (c = 0 → d = 0 → p + q * (k % 2) ≤ exact → e = 0) ∧
        (if k % 2 = 1 then x * y else x).IsPowerOfTen e (p + q * (k % 2)) := by
      by_cases hodd : k % 2 = 1
      · rw [if_pos hodd, hodd, Nat.mul_one]
        rw [hodd, Nat.mul_one] at hhalves
        obtain ⟨e, he, hexact, hproduct⟩ := hx.mul hF hy hc hd (by omega)
        exact ⟨e, by omega, hexact, hproduct⟩
      · rw [if_neg hodd, show k % 2 = 0 by omega, Nat.mul_zero, Nat.add_zero]
        exact ⟨c, hc, fun hzero _ _ => hzero, hx⟩
    obtain ⟨e, he, hexact, hfactor⟩ := hfactor
    rw [PageScript.powerLoop]
    by_cases hlast : k / 2 = 0
    · rw [hlast, Nat.mul_zero, Nat.add_zero] at hhalves
      rw [hhalves]
      simp only [hlast, if_true]
      exact ⟨e, he, hexact, hfactor⟩
    · have hsquares : q + q ≤ (q + q) * (k / 2) := Nat.le_mul_of_pos_right _ (by omega)
      obtain ⟨f, hf, hexact', hsquare⟩ := hy.mul hF hy (Nat.le_of_lt hd) hd (by omega)
      obtain ⟨g, hg, hexact'', hrest⟩ :=
        ih (k / 2) (by omega) hfactor hsquare he (by omega) (by omega)
      rw [Nat.add_assoc, ← hhalves] at hg hexact'' hrest
      refine ⟨g, hg, fun hc hd hle => ?_, ?_⟩
      · exact hexact'' (hexact hc hd (by omega)) (hexact' hd hd (by omega)) hle
      · simpa only [hlast, if_false] using hrest

theorem IsPowerOfTen.le_of_large (hF : F.HoldsPowers exact greatest) (hx : x.IsPowerOfTen c p)
    (hc : c ≤ p) {least n : Nat} (hn : 11 * n ≤ 10 * Nat.pow 10 least) (hmin : least ≤ p)
    (hmax : p ≤ greatest) : ∃ m h, x = .finite false m h ∧ n * F.one ≤ m := by
  obtain ⟨m, h, rfl, hnear⟩ := hx
  refine ⟨m, h, rfl, ?_⟩
  have hbelow := hF.toHoldsRoundings.le_near hnear (Nat.le_trans hc hmax)
  have hpow := pow_ten_mul_le hmin F.one
  have hleast : 11 * (n * F.one) ≤ 10 * (Nat.pow 10 least * F.one) := by
    rw [← Nat.mul_assoc, ← Nat.mul_assoc]
    exact Nat.mul_le_mul_right _ hn
  omega

end Binary

namespace BinaryFormat

/-!
### Quotients and half way points

A half way point between whole numbers is half an odd number. The quotient of a whole number by a
multiple of ten is rounded, but it stays on its side of each half way point: unless it is one, it is
further away from it than the rounding can go.
-/

theorem one_eq_mul_pow {F : BinaryFormat} {j : Nat} (h : Nat.pow 2 j ∣ F.one) :
    ∃ k, F.one = Nat.pow 2 j * Nat.pow 2 k := by
  obtain ⟨l, hl⟩ : ∃ l, F.one = Nat.pow 2 l := ⟨_, rfl⟩
  rw [hl] at h ⊢
  have hle : j ≤ l := (Nat.pow_dvd_pow_iff_le_right (by decide)).mp h
  refine ⟨l - j, ?_⟩
  rw [Nat.pow_eq, Nat.pow_eq, Nat.pow_eq, ← Nat.pow_add, Nat.add_sub_cancel' hle]

section Quotient

variable {F : BinaryFormat} {n t c : Nat} (hn : n ≤ Nat.pow 2 F.precision) (ht : 0 < t)
  (hdvd : 10 ∣ t) (hnormal : Nat.pow 2 F.fractionBits * t ≤ F.one)

include ht hnormal in
theorem le_mul_one_div (hpos : 0 < n) : Nat.pow 2 F.fractionBits ≤ n * F.one / t := by
  rw [Nat.le_div_iff_mul_le ht]
  exact Nat.le_trans hnormal (Nat.le_mul_of_pos_left _ hpos)

include hn ht hdvd

include hnormal in
theorem nearest_lt_half_way (hten : ¬ 10 ∣ 2 * Nat.pow 2 F.precision + 2) (hlt : 2 * n < c * t) :
    2 * F.nearest (n * F.one) t < c * F.one := by
  obtain rfl | hpos := Nat.eq_zero_or_pos n
  · have hc : 0 < c := Nat.pos_of_ne_zero fun hzero => by simp [hzero] at hlt
    have hzero := F.nearest_mul F.fits_zero.1 ht
    rw [Nat.zero_mul] at hzero ⊢
    rw [hzero]
    exact Nat.mul_pos hc F.one_pos
  have habove := (F.nearest_relative ht (le_mul_one_div ht hnormal hpos)).2
  refine Nat.not_le.mp fun hle => ?_
  generalize F.nearest (n * F.one) t = m at habove hle
  generalize Nat.pow 2 F.precision = whole at hn hten habove
  have hbound : whole * (c * t) ≤ 2 * ((whole + 1) * n) := by
    refine Nat.le_of_mul_le_mul_right ?_ F.one_pos
    calc whole * (c * t) * F.one = whole * t * (c * F.one) := by ac_rfl
      _ ≤ whole * t * (2 * m) := Nat.mul_le_mul_left _ hle
      _ = 2 * (whole * (t * m)) := by ac_rfl
      _ ≤ 2 * ((whole + 1) * (n * F.one)) := Nat.mul_le_mul_left _ habove
      _ = 2 * ((whole + 1) * n) * F.one := by ac_rfl
  have htens : 10 ∣ c * t := Nat.dvd_mul_left_of_dvd hdvd c
  generalize c * t = w at hlt hbound htens
  -- Only the greatest number could reach the point, and then the point would be next to it.
  have hgreatest : n = whole := by
    have hnext : whole * (2 * n + 2) ≤ whole * w := Nat.mul_le_mul_left _ (by omega)
    have hleft : whole * (2 * n + 2) = 2 * (whole * n) + 2 * whole := by ring
    have hright : 2 * ((whole + 1) * n) = 2 * (whole * n) + 2 * n := by ring
    omega
  subst hgreatest
  have hw : w ≤ 2 * (n + 1) := by
    refine Nat.le_of_mul_le_mul_left ?_ hpos
    calc n * w ≤ 2 * ((n + 1) * n) := hbound
      _ = n * (2 * (n + 1)) := by ac_rfl
  exact hten (by rwa [show 2 * n + 2 = w by omega])

include hnormal in
theorem half_way_lt_nearest (hlt : c * t < 2 * n) : c * F.one < 2 * F.nearest (n * F.one) t := by
  have hbelow := (F.nearest_relative ht (le_mul_one_div (n := n) ht hnormal (by omega))).1
  refine Nat.not_le.mp fun hle => ?_
  generalize F.nearest (n * F.one) t = m at hbelow hle
  generalize Nat.pow 2 F.precision = whole at hn hbelow
  have hbound : 2 * (whole * n) ≤ (whole + 1) * (c * t) := by
    refine Nat.le_of_mul_le_mul_right ?_ F.one_pos
    calc 2 * (whole * n) * F.one = 2 * (whole * (n * F.one)) := by ac_rfl
      _ ≤ 2 * ((whole + 1) * (t * m)) := Nat.mul_le_mul_left _ hbelow
      _ = (whole + 1) * t * (2 * m) := by ac_rfl
      _ ≤ (whole + 1) * t * (c * F.one) := Nat.mul_le_mul_left _ hle
      _ = (whole + 1) * (c * t) * F.one := by ac_rfl
  have htens : 10 ∣ c * t := Nat.dvd_mul_left_of_dvd hdvd c
  generalize c * t = w at hlt hbound htens
  obtain ⟨k, rfl⟩ : ∃ k, n = k + 1 := ⟨n - 1, by omega⟩
  have hnext : (whole + 1) * w ≤ (whole + 1) * (2 * k) := Nat.mul_le_mul_left _ (by omega)
  have hleft : 2 * (whole * (k + 1)) = 2 * (whole * k) + 2 * whole := by ring
  have hright : (whole + 1) * (2 * k) = 2 * (whole * k) + 2 * k := by ring
  omega

theorem nearest_eq_half_way (hhalf : F.HoldsHalf) (heq : 2 * n = c * t) :
    2 * F.nearest (n * F.one) t = c * F.one := by
  obtain ⟨k, hk⟩ : ∃ k, F.one = 2 * Nat.pow 2 k := one_eq_mul_pow (j := 1) hhalf
  have hc : c < Nat.pow 2 F.precision := by
    have hle : c * 10 ≤ c * t := Nat.mul_le_mul_left _ (Nat.le_of_dvd ht hdvd)
    have hpos : 0 < Nat.pow 2 F.precision := Nat.two_pow_pos _
    omega
  have hexact : n * F.one = c * Nat.pow 2 k * t := by
    calc n * F.one = 2 * n * Nat.pow 2 k := by rw [hk]; ac_rfl
      _ = c * Nat.pow 2 k * t := by rw [heq]; ac_rfl
  rw [hexact, F.nearest_mul (F.onGrid_mul_pow c k hc) ht, hk]
  ac_rfl

/-- Rounded to a whole number, a quotient is what it would be without the first rounding. -/
theorem halfUp_nearest (hhalf : F.HoldsHalf) (hten : ¬ 10 ∣ 2 * Nat.pow 2 F.precision + 2)
    (hnormal : Nat.pow 2 F.fractionBits * t ≤ F.one) (s : Bool) :
    halfUp (Binary.signed s (F.nearest (n * F.one) t)) F.one = halfUp (Binary.signed s n) t := by
  have hlt (c : Nat) := nearest_lt_half_way (c := c) hn ht hdvd hnormal hten
  have hgt (c : Nat) := half_way_lt_nearest (c := c) hn ht hdvd hnormal
  have heq (c : Nat) := nearest_eq_half_way (c := c) hn ht hdvd hhalf
  generalize F.nearest (n * F.one) t = m at hlt hgt heq ⊢
  have hone : (0 : Int) < F.one := Int.natCast_pos.mpr F.one_pos
  have hpos : (0 : Int) < t := Int.natCast_pos.mpr ht
  have hsides (c : Nat) : (c * t ≤ 2 * n ↔ c * F.one ≤ 2 * m) ∧
      (2 * n ≤ c * t ↔ 2 * m ≤ c * F.one) := by
    have hlt := hlt c
    have hgt := hgt c
    have heq := heq c
    omega
  have hle (c : Int) : c * t ≤ 2 * Binary.signed s n ↔ c * F.one ≤ 2 * Binary.signed s m := by
    obtain ⟨k, hk⟩ := Int.eq_nat_or_neg c
    have hsidesK := hsides k
    have hsidesZero := hsides 0
    have hproducts : k = 0 ∨ 0 < k * t ∧ 0 < k * F.one := by
      obtain rfl | hk := Nat.eq_zero_or_pos k
      · exact .inl rfl
      · exact .inr ⟨Nat.mul_pos hk ht, Nat.mul_pos hk F.one_pos⟩
    cases s with
    | false =>
      change c * t ≤ 2 * (n : Int) ↔ c * F.one ≤ 2 * (m : Int)
      rcases hk with rfl | rfl
      · omega
      · rw [Int.neg_mul, Int.neg_mul]
        omega
    | true =>
      change c * t ≤ 2 * -(n : Int) ↔ c * F.one ≤ 2 * -(m : Int)
      rcases hk with rfl | rfl
      · rcases hproducts with rfl | hproducts <;> omega
      · rw [Int.neg_mul, Int.neg_mul]
        omega
  obtain ⟨hlower, hupper⟩ := (halfUp_eq_iff hpos).mp (Eq.refl (halfUp (Binary.signed s n) t))
  refine (halfUp_eq_iff hone).mpr ⟨(hle _).mp hlower, ?_⟩
  exact Int.not_le.mp fun h => Int.not_le.mpr hupper ((hle _).mpr h)

end Quotient

end BinaryFormat

namespace Binary

variable {F : BinaryFormat} {x : Binary F} {k : Int}

/-- A multiple of an even number is exact further up than whole numbers in general. -/
theorem fits_halfUp_mul {t : Nat}
    (hlimit : Nat.pow 2 F.precision * Nat.pow 2 1 * F.one ≤ F.limit)
    (hk : k.natAbs ≤ Nat.pow 2 F.precision) (heven : 2 ∣ t) (hpos : 0 < t)
    (ht : t < 2 * Nat.pow 2 F.precision) : F.Fits (halfUp k t * t * F.one).natAbs := by
  obtain ⟨hlower, hupper⟩ :=
    (halfUp_eq_iff (Int.natCast_pos.mpr hpos)).mp (Eq.refl (halfUp k t))
  obtain ⟨u, rfl⟩ := heven
  generalize halfUp k (2 * u : Nat) = g at hlower hupper ⊢
  have hbound : (g * u).natAbs < Nat.pow 2 F.precision := by
    rw [Int.sub_mul, Int.natCast_mul, Int.mul_assoc] at hlower
    rw [Int.add_mul, Int.natCast_mul, Int.mul_assoc] at hupper
    have hdouble : g * ((2 : Nat) * u) = 2 * (g * u) := by push_cast; ring
    generalize g * u = w at *
    omega
  have habs : (g * (2 * u : Nat) * F.one).natAbs = (g * u).natAbs * Nat.pow 2 1 * F.one := by
    rw [Int.natAbs_mul, Int.natAbs_mul, Int.natAbs_mul]
    simp only [Int.natAbs_natCast, Nat.pow_eq, Nat.pow_one]
    ac_rfl
  rw [habs]
  exact BinaryFormat.fits_mul_pow hbound hlimit

section Scaled

variable {t : Nat} (hF : F.HoldsWhole) (hhalf : F.HoldsHalf) (hx : x.units? = some (k * F.one))
include hF hhalf hx

/-- Scaled by one, a whole number stays as it is. -/
theorem units?_mul_round_div (ht : t = 1) (hscale : F.Fits (t * F.one)) :
    ((x * .finite false _ hscale).roundHalfUp / .finite false _ hscale).units? =
      some (k * F.one) := by
  subst ht
  generalize hm : 1 * F.one = m at hscale ⊢
  obtain rfl : F.one = m := by omega
  have hproduct : (x * .finite false _ hscale).units? = some (k * F.one) :=
    units?_mul hx (b := (F.one : Int)) rfl rfl (fits_of_units? hx)
  rw [roundHalfUp_of_whole hF hhalf hproduct]
  obtain ⟨s, h, hfinite, hsign⟩ := eq_finite_of_whole hproduct
  have hnearest := F.nearest_mul h.1 F.one_pos
  rw [hfinite, units?_div_finite h hscale F.one_pos (by rw [hnearest]; exact h.2), hnearest,
    signed_mul_right, hsign]

variable (hk : k.natAbs ≤ Nat.pow 2 F.precision)
include hk

/-- Scaled by a multiple of ten that is exact, it is rounded to a multiple of that. -/
theorem units?_div_round_mul (hten : ¬ 10 ∣ 2 * Nat.pow 2 F.precision + 2) (ht : 0 < t)
    (hdvd : 10 ∣ t) (hnormal : Nat.pow 2 F.fractionBits * t ≤ F.one) (hscale : F.Fits (t * F.one))
    (hfits : F.Fits (halfUp k t * t * F.one).natAbs) :
    ((x / .finite false _ hscale).roundHalfUp * .finite false _ hscale).units? =
      some (halfUp k t * t * F.one) := by
  obtain ⟨s, h, rfl, hsign⟩ := eq_finite_of_whole hx
  have hnearest : F.nearest (k.natAbs * F.one * F.one) (t * F.one) =
      F.nearest (k.natAbs * F.one) t := F.nearest_mul_mul _ _ F.one_pos
  have hlimit : F.nearest (k.natAbs * F.one) t < F.limit := by
    refine Nat.lt_of_le_of_lt ?_ h.2
    calc F.nearest (k.natAbs * F.one) t ≤ F.nearest (k.natAbs * F.one * t) t :=
          F.nearest_mono (Nat.le_mul_of_pos_right _ ht) t
      _ = k.natAbs * F.one := F.nearest_mul h.1 ht
  have hquotient := units?_div_finite (s := s) h hscale (Nat.mul_pos ht F.one_pos)
    (by rwa [hnearest])
  rw [hnearest] at hquotient
  have hrounded := units?_roundHalfUp hF hhalf hquotient
  rw [BinaryFormat.halfUp_nearest hk ht hdvd hhalf hten hnormal, hsign] at hrounded
  refine units?_mul hrounded (b := ((t * F.one : Nat) : Int)) rfl ?_ hfits
  rw [Int.natCast_mul]
  ac_rfl

/-- Scaled by a number that is much greater, it is rounded to zero. -/
theorem units?_div_round_mul_of_large (hquarter : Nat.pow 2 2 ∣ F.one) {m : Nat} (hscale : F.Fits m)
    (hm : 4 * Nat.pow 2 F.precision * F.one ≤ m) :
    ((x / .finite false m hscale).roundHalfUp * .finite false m hscale).units? = some 0 := by
  obtain ⟨s, h, rfl, -⟩ := eq_finite_of_whole hx
  obtain ⟨j, hj⟩ : ∃ j, F.one = 4 * Nat.pow 2 j := BinaryFormat.one_eq_mul_pow hquarter
  have hone := F.one_pos
  rw [Nat.mul_assoc] at hm
  have hlarge : 4 * (k.natAbs * F.one) ≤ m :=
    Nat.le_trans (Nat.mul_le_mul_left 4 (Nat.mul_le_mul_right _ hk)) hm
  have hpos : 0 < m :=
    Nat.lt_of_lt_of_le (Nat.mul_pos (by decide) (Nat.mul_pos (Nat.two_pow_pos _) hone)) hm
  have hsmall : F.nearest (k.natAbs * F.one * F.one) m ≤ Nat.pow 2 j := by
    have hle : k.natAbs * F.one * F.one ≤ Nat.pow 2 j * m := by
      calc k.natAbs * F.one * F.one = Nat.pow 2 j * (4 * (k.natAbs * F.one)) := by
            conv_lhs => rw [hj]
            rw [hj]
            ac_rfl
        _ ≤ Nat.pow 2 j * m := Nat.mul_le_mul_left _ hlarge
    calc F.nearest (k.natAbs * F.one * F.one) m ≤ F.nearest (Nat.pow 2 j * m) m :=
          F.nearest_mono hle m
      _ = Nat.pow 2 j := F.nearest_mul (F.onGrid_two_pow j) hpos
  have hlimit := BinaryFormat.one_lt_limit hF
  have hquotient := units?_div_finite (s := s) h hscale hpos (by omega)
  have hrounded := units?_roundHalfUp hF hhalf hquotient
  have hzero : halfUp (signed s (F.nearest (k.natAbs * F.one * F.one) m)) F.one = 0 := by
    refine (halfUp_eq_iff (Int.natCast_pos.mpr hone)).mpr ?_
    generalize F.nearest (k.natAbs * F.one * F.one) m = q at hsmall
    cases s <;> simp only [signed] <;> omega
  rw [hzero, Int.zero_mul] at hrounded
  exact units?_mul hrounded (b := (m : Int)) rfl (by simp) F.fits_zero

end Scaled

end Binary

open BinaryFormat (binary64 holdsWhole_binary64 holdsHalf_binary64 holdsPowers_binary64)

theorem powerOfTen_isPowerOfTen {k : Nat} (hk : k ≤ 308) :
    ∃ e ≤ k, (k ≤ 22 → e = 0) ∧ (powerOfTen k).IsPowerOfTen e k := by
  have hone : (Binary.ofNat 1 : Binary64).IsPowerOfTen 0 0 :=
    (Binary.ofNat_isInt holdsWhole_binary64 (by decide)).isNear
  have hten : (Binary.ofNat 10 : Binary64).IsPowerOfTen 0 1 :=
    (Binary.ofNat_isInt holdsWhole_binary64 (by decide)).isNear
  have hloop := hone.powerLoop (k := k) holdsPowers_binary64 hten (Nat.le_refl 0) Nat.one_pos
    (by omega)
  rw [Nat.one_mul, Nat.zero_add] at hloop
  obtain ⟨e, he, hexact, hpower⟩ := hloop
  exact ⟨e, he, hexact rfl rfl, hpower⟩

theorem units?_roundTo {x : Binary64} {k : Int} {j : Nat}
    (hx : x.units? = some (k * binary64.one)) (hk : k.natAbs ≤ Nat.pow 2 binary64.precision)
    (hj : j ≤ 308) :
    (roundTo x (-j)).units? =
      some (halfUp k (Nat.pow 10 j : Nat) * (Nat.pow 10 j : Nat) * binary64.one) := by
  obtain ⟨e, he, hexact, hpower⟩ := powerOfTen_isPowerOfTen hj
  have hpos : 0 < Nat.pow 10 j := Nat.pow_pos (by decide)
  have habs : (-(j : Int)).natAbs = j := by rw [Int.natAbs_neg, Int.natAbs_natCast]
  simp only [roundTo, habs]
  obtain hzero | hplaces := Nat.eq_zero_or_pos j
  · obtain rfl := hexact (by omega)
    obtain ⟨hscale, hpower⟩ := hpower.eq_finite
    have hone : Nat.pow 10 j = 1 := by rw [hzero, Nat.pow_eq, Nat.pow_zero]
    have hwhole : halfUp k (Nat.pow 10 j : Nat) * (Nat.pow 10 j : Nat) = k := by
      rw [hone, halfUp]
      omega
    rw [if_pos (by omega), hpower, hwhole]
    exact Binary.units?_mul_round_div holdsWhole_binary64 holdsHalf_binary64 hx hone hscale
  · rw [if_neg (by omega)]
    by_cases hsmall : j ≤ 16
    · obtain rfl := hexact (by omega)
      obtain ⟨hscale, hpower⟩ := hpower.eq_finite
      have hle : Nat.pow 10 j ≤ Nat.pow 10 16 := Nat.pow_le_pow_right (by decide) hsmall
      rw [hpower]
      have hdvd : 10 ∣ Nat.pow 10 j := Dvd.dvd.pow (Nat.dvd_refl 10) (by omega)
      refine Binary.units?_div_round_mul holdsWhole_binary64 holdsHalf_binary64 hx hk
        (by decide +kernel) hpos hdvd ?_ hscale ?_
      · exact Nat.le_trans (Nat.mul_le_mul_left _ hle) (by decide +kernel)
      · exact Binary.fits_halfUp_mul (by decide +kernel) hk (Nat.dvd_trans (by decide) hdvd) hpos
          (Nat.lt_of_le_of_lt hle (by decide +kernel))
    · have hlarge : 11 * (4 * Nat.pow 2 binary64.precision) ≤ 10 * Nat.pow 10 17 := by
        decide +kernel
      obtain ⟨m, hscale, hpower, hm⟩ :=
        hpower.le_of_large holdsPowers_binary64 he hlarge (by omega) hj
      have hle : Nat.pow 10 17 ≤ Nat.pow 10 j := Nat.pow_le_pow_right (by decide) (by omega)
      have hzero : halfUp k (Nat.pow 10 j : Nat) = 0 := by
        refine (halfUp_eq_iff (Int.natCast_pos.mpr hpos)).mpr ?_
        have hmax : 2 * Nat.pow 2 binary64.precision < Nat.pow 10 17 := by decide +kernel
        generalize Nat.pow 10 j = t at hle
        omega
      rw [hpower, hzero, Int.zero_mul, Int.zero_mul]
      exact Binary.units?_div_round_mul_of_large holdsWhole_binary64 holdsHalf_binary64 hx hk
        (by decide +kernel) hscale hm

/-- Whole numbers are rounded to tens, hundreds and so on without an error. -/
theorem roundTo_eq_floor {x : Binary64} {k d : Int} (hx : x.value? = some (k : ℚ))
    (hk : k.natAbs ≤ 2 ^ 53) (hmin : -308 ≤ d) (hmax : d ≤ 0) :
    (roundTo x d).value? = some ((10 : ℚ) ^ (-d) * ⌊(k : ℚ) / (10 : ℚ) ^ (-d) + 1 / 2⌋) := by
  obtain ⟨j, rfl⟩ : ∃ j : Nat, d = -j := ⟨d.natAbs, by omega⟩
  have hscale : (10 : ℚ) ^ (-(-(j : Int))) = ((Nat.pow 10 j : Nat) : ℚ) := by
    rw [neg_neg, zpow_natCast, Nat.pow_eq, Nat.cast_pow, Nat.cast_ofNat]
  have hunits := units?_roundTo (Binary.value?_eq_intCast_iff.mp hx) hk (show j ≤ 308 by omega)
  have hpos : 0 < Nat.pow 10 j := Nat.pow_pos (by decide)
  rw [hscale, ← halfUp_eq_floor k hpos, Binary.value?_eq_intCast_iff.mpr hunits, Int.cast_mul,
    Int.cast_natCast, mul_comm]

/-- A half below zero, and the greatest whole number with a quotient that is rounded. -/
theorem roundTo_eq_floor_around_half :
    ((.ofInt (-25) : Binary64).value? = some ((-25 : Int) : ℚ) ∧
      (roundTo (.ofInt (-25)) (-1)).value? = some (-20)) ∧
    (.ofInt 9007199254740992 : Binary64).value? = some ((9007199254740992 : Int) : ℚ) ∧
      (roundTo (.ofInt 9007199254740992) (-16)).value? = some (10 ^ 16) := by
  have hsmall : (.ofInt (-25) : Binary64).value? = some ((-25 : Int) : ℚ) :=
    Binary.value?_eq_intCast_iff.mpr (by decide +kernel)
  have hgreatest : (.ofInt 9007199254740992 : Binary64).value? =
      some ((9007199254740992 : Int) : ℚ) := Binary.value?_eq_intCast_iff.mpr (by decide +kernel)
  refine ⟨⟨hsmall, ?_⟩, hgreatest, ?_⟩
  · rw [roundTo_eq_floor hsmall (by decide) (by decide) (by decide),
      show ⌊((-25 : Int) : ℚ) / 10 ^ (- -1 : Int) + 1 / 2⌋ = -2 from
        Int.floor_eq_iff.mpr (by norm_num)]
    norm_num
  · rw [roundTo_eq_floor hgreatest (by decide) (by decide) (by decide),
      show ⌊((9007199254740992 : Int) : ℚ) / 10 ^ (- -16 : Int) + 1 / 2⌋ = 1 from
        Int.floor_eq_iff.mpr (by norm_num)]
    norm_num

end PageScript
