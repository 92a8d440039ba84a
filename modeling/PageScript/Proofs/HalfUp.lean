import Mathlib.Data.Rat.Floor
import PageScript.Number.Elementary
import PageScript.Proofs.Units

/-!
# Rounding to the nearest whole number

A number is compared with the half way point above its floor by a subtraction. The difference is
rounded only for negative numbers close to zero, which are beyond that point anyway: below it the
difference is on the grid.

Main statement: a half goes up, so that the result is the floor of the number plus one half, without
any rounding of the sum. The order of numbers is kept, and whole numbers stay as they are.
-/

namespace PageScript

namespace BinaryFormat

variable {F : BinaryFormat}

/-- Half of one is a whole number of units. -/
def HoldsHalf (F : BinaryFormat) : Prop := 2 ∣ F.one

theorem holdsHalf_binary64 : binary64.HoldsHalf := by
  unfold HoldsHalf
  decide +kernel

theorem holdsWhole_binary32 : binary32.HoldsWhole := by
  unfold HoldsWhole
  decide +kernel

theorem holdsHalf_binary32 : binary32.HoldsHalf := by
  unfold HoldsHalf
  decide +kernel

theorem one_lt_limit (hF : F.HoldsWhole) : F.one < F.limit :=
  Nat.lt_of_le_of_lt (Nat.le_mul_of_pos_left _ (Nat.two_pow_pos _)) hF

theorem fits_half (hF : F.HoldsWhole) : F.Fits (F.one / 2) := by
  refine ⟨?_, Nat.lt_of_le_of_lt (Nat.div_le_self _ _) (one_lt_limit hF)⟩
  by_cases hzero : F.one / 2 = 0
  · rw [hzero]
    exact F.fits_zero.1
  obtain ⟨k, hk⟩ : ∃ k, F.one = Nat.pow 2 k := ⟨_, rfl⟩
  cases k with
  | zero => exact absurd (by rw [hk]) hzero
  | succ k =>
    have hhalf : F.one / 2 = Nat.pow 2 k := by
      rw [hk, Nat.pow_eq, Nat.pow_eq, Nat.pow_succ, Nat.mul_div_cancel _ (by decide)]
    rw [hhalf]
    exact F.onGrid_two_pow k

end BinaryFormat

/-- A quotient rounded to a whole number, a half upward. -/
def halfUp (n d : Int) : Int := (2 * n + d) / (2 * d)

/-- The result is at most one half away, and less if it is above. -/
theorem halfUp_eq_iff {n d g : Int} (hd : 0 < d) :
    halfUp n d = g ↔ (2 * g - 1) * d ≤ 2 * n ∧ 2 * n < (2 * g + 1) * d := by
  have hlower : (2 * g - 1) * d = g * (2 * d) - d := by ring
  have hupper : (2 * g + 1) * d = (g + 1) * (2 * d) - d := by ring
  rw [halfUp, hlower, hupper]
  constructor
  · rintro rfl
    have hle := Int.ediv_mul_le (2 * n + d) (b := 2 * d) (by omega)
    have hlt := Int.lt_ediv_add_one_mul_self (2 * n + d) (b := 2 * d) (by omega)
    omega
  · rintro ⟨hle, hlt⟩
    apply Int.le_antisymm
    · exact Int.le_of_lt_add_one ((Int.ediv_lt_iff_lt_mul (by omega)).mpr (by omega))
    · exact (Int.le_ediv_iff_mul_le (by omega)).mpr (by omega)

theorem halfUp_eq_ite (n : Int) {d : Int} (hd : 0 < d) :
    halfUp n d = if d ≤ 2 * (n % d) then n / d + 1 else n / d := by
  have hdiv := Int.mul_ediv_add_emod n d
  have hnonneg := Int.emod_nonneg n (Int.ne_of_gt hd)
  have hlt := Int.emod_lt_of_pos n hd
  rw [halfUp_eq_iff hd]
  split
  · rw [show (2 * (n / d + 1) - 1) * d = 2 * (d * (n / d)) + d by ring,
      show (2 * (n / d + 1) + 1) * d = 2 * (d * (n / d)) + 3 * d by ring]
    omega
  · rw [show (2 * (n / d) - 1) * d = 2 * (d * (n / d)) - d by ring,
      show (2 * (n / d) + 1) * d = 2 * (d * (n / d)) + d by ring]
    omega

theorem halfUp_mono {m n d : Int} (hd : 0 < d) (hmn : m ≤ n) : halfUp m d ≤ halfUp n d :=
  Int.ediv_le_ediv (by omega) (by omega)

theorem halfUp_eq_floor (n : Int) {d : Nat} (hd : 0 < d) :
    (halfUp n d : Int) = ⌊(n / d + 1 / 2 : ℚ)⌋ := by
  have hsum : (n / d + 1 / 2 : ℚ) = ((2 * n + d : Int) : ℚ) / ((2 * d : Nat) : ℚ) := by
    have hne : (d : ℚ) ≠ 0 := Nat.cast_ne_zero.mpr (Nat.ne_of_gt hd)
    push_cast
    field_simp
  rw [hsum, Rat.floor_intCast_div_natCast, halfUp]
  rfl

namespace Binary

variable {F : BinaryFormat} {x : Binary F} {u : Int}

/-- The whole part of a number, in units, is at most two to the power of the precision away. -/
theorem natAbs_floor_le (hlt : u.natAbs < Nat.pow 2 F.precision * F.one) :
    (u / (F.one : Int)).natAbs ≤ Nat.pow 2 F.precision ∧
      ((u / (F.one : Int)) + 1).natAbs ≤ Nat.pow 2 F.precision := by
  have hone : (0 : Int) < F.one := Int.natCast_pos.mpr F.one_pos
  have hbound : (u.natAbs : Int) < ((Nat.pow 2 F.precision : Nat) : Int) * (F.one : Int) := by
    rw [← Int.natCast_mul]
    exact Int.ofNat_lt.mpr hlt
  generalize Nat.pow 2 F.precision = whole at hbound ⊢
  have hlower : -(whole : Int) ≤ u / (F.one : Int) := by
    rw [Int.le_ediv_iff_mul_le hone, Int.neg_mul]
    omega
  have hupper : u / (F.one : Int) < (whole : Int) := by
    rw [Int.ediv_lt_iff_lt_mul hone]
    omega
  omega

/-- Numbers with no digits behind the point. -/
theorem one_dvd_of_large (h : F.Fits u.natAbs) (hle : Nat.pow 2 F.precision * F.one ≤ u.natAbs) :
    (F.one : Int) ∣ u :=
  Int.natCast_dvd.mpr (Nat.dvd_trans (BinaryFormat.one_dvd_spacing hle) h.1)

theorem fits_floor (hF : F.HoldsWhole) (h : F.Fits u.natAbs) :
    F.Fits (u / (F.one : Int) * (F.one : Int)).natAbs := by
  by_cases hlarge : Nat.pow 2 F.precision * F.one ≤ u.natAbs
  · rwa [Int.ediv_mul_cancel (one_dvd_of_large h hlarge)]
  · rw [Int.natAbs_mul, Int.natAbs_natCast]
    exact BinaryFormat.fits_whole hF (natAbs_floor_le (Nat.not_le.mp hlarge)).1

theorem units?_floor (hF : F.HoldsWhole) (hx : x.units? = some u) :
    x.floor.units? = some (u / (F.one : Int) * (F.one : Int)) := by
  have hfits := fits_floor hF (fits_of_units? hx)
  obtain ⟨s, h, rfl, hu⟩ := units?_eq_some_iff.mp hx
  change (if u.natAbs = 0 then Binary.finite s u.natAbs h
    else ofInt (signed s u.natAbs / (F.one : Int))).units? = _
  rw [hu]
  by_cases hzero : u.natAbs = 0
  · obtain rfl := Int.natAbs_eq_zero.mp hzero
    rw [if_pos hzero, hx, Int.zero_ediv, Int.zero_mul]
  · rw [if_neg hzero, ofInt]
    exact units?_ofUnits hfits

/-- Below half the way to the next whole number, the way from the last one is on the grid. -/
theorem fits_emod (h : F.Fits u.natAbs) (hhalf : 2 * (u % (F.one : Int)) < F.one) :
    F.Fits (u % (F.one : Int)).natAbs := by
  have hone : (0 : Int) < F.one := Int.natCast_pos.mpr F.one_pos
  have hnonneg := Int.emod_nonneg u (Int.ne_of_gt hone)
  by_cases hlarge : Nat.pow 2 F.precision * F.one ≤ u.natAbs
  · rw [Int.emod_eq_zero_of_dvd (one_dvd_of_large h hlarge)]
    exact F.fits_zero
  · have hdvd : F.spacing u.natAbs ∣ (u % (F.one : Int)).natAbs := by
      have hu : (F.spacing u.natAbs : Int) ∣ u := Int.natCast_dvd.mpr h.1
      have hone' : (F.spacing u.natAbs : Int) ∣ F.one :=
        Int.natCast_dvd_natCast.mpr (BinaryFormat.spacing_dvd_one (Nat.not_le.mp hlarge))
      rw [← Int.natCast_dvd, Int.emod_def]
      exact Int.dvd_sub hu (Int.dvd_mul_of_dvd_left hone')
    have hle : (u % (F.one : Int)).natAbs ≤ u.natAbs := by
      have hdiv := Int.mul_ediv_add_emod u F.one
      by_cases hneg : u < 0
      · have hquotient : u / (F.one : Int) < 0 := Int.ediv_neg_of_neg_of_pos hneg hone
        have hproduct : (F.one : Int) * (u / (F.one : Int)) ≤ (F.one : Int) * -1 :=
          Int.mul_le_mul_of_nonneg_left (by omega) (Int.le_of_lt hone)
        omega
      · have hproduct : 0 ≤ (F.one : Int) * (u / (F.one : Int)) :=
          Int.mul_nonneg (Int.le_of_lt hone) (Int.ediv_nonneg (by omega) (Int.le_of_lt hone))
        omega
    exact ⟨.of_dvd hdvd hle, Nat.lt_of_le_of_lt hle h.2⟩

theorem units?_half (hF : F.HoldsWhole) (hhalf : F.HoldsHalf) :
    (half : Binary F).units? = some ((F.one / 2 : Nat) : Int) :=
  units?_round false (BinaryFormat.fits_half hF) (by decide) (Nat.div_mul_cancel hhalf).symm

/-- What is at least a half and below one is still so when it is rounded. -/
theorem half_atMost_ofUnits (hF : F.HoldsWhole) (hhalf : F.HoldsHalf) {r : Int}
    (hle : (F.one : Int) ≤ 2 * r) (hlt : r < F.one) :
    half.atMost (ofUnits r : Binary F) = true := by
  have hnat : r = (r.toNat : Int) := by omega
  have hupper : F.nearest r.toNat 1 ≤ F.one :=
    calc F.nearest r.toNat 1 ≤ F.nearest F.one 1 := F.nearest_mono (by omega) 1
      _ = F.one := F.nearest_self (F.onGrid_two_pow _)
  have hlower : F.one / 2 ≤ F.nearest r.toNat 1 :=
    calc F.one / 2 = F.nearest (F.one / 2) 1 := (F.nearest_self (BinaryFormat.fits_half hF).1).symm
      _ ≤ F.nearest r.toNat 1 := F.nearest_mono (by omega) 1
  have hunits : (ofUnits r : Binary F).units? = some (F.nearest r.toNat 1 : Int) := by
    rw [ofUnits, hnat, Int.natAbs_natCast, decide_eq_false (by omega), round,
      dif_pos (Nat.lt_of_le_of_lt hupper (BinaryFormat.one_lt_limit hF))]
    rfl
  exact (atMost_iff_of_units? (units?_half hF hhalf) hunits).mpr (Int.ofNat_le.mpr hlower)

/-- The comparison with the half way point is right, although the difference may be rounded. -/
theorem half_atMost_sub_floor_iff (hF : F.HoldsWhole) (hhalf : F.HoldsHalf)
    (hx : x.units? = some u) :
    half.atMost (x - x.floor) = true ↔ (F.one : Int) ≤ 2 * (u % (F.one : Int)) := by
  have hone : (0 : Int) < F.one := Int.natCast_pos.mpr F.one_pos
  have hfloor := units?_floor hF hx
  have hrest : u - u / (F.one : Int) * (F.one : Int) = u % (F.one : Int) := by
    rw [Int.emod_def, Int.mul_comm]
  by_cases hle : (F.one : Int) ≤ 2 * (u % (F.one : Int))
  · have hlt := Int.emod_lt_of_pos u hone
    have hdifference : x - x.floor = ofUnits (u % (F.one : Int)) := by
      rw [← hrest, Int.sub_eq_add_neg]
      exact add_eq_ofUnits hx (units?_neg hfloor) (by omega)
    rw [hdifference]
    exact iff_of_true (half_atMost_ofUnits hF hhalf hle hlt) hle
  · have hfits := fits_emod (fits_of_units? hx) (Int.not_le.mp hle)
    have hdifference : (x - x.floor).units? = some (u % (F.one : Int)) := by
      rw [← hrest]
      exact units?_sub hx hfloor (by rwa [hrest])
    have htwice : F.one / 2 * 2 = F.one := Nat.div_mul_cancel hhalf
    rw [atMost_iff_of_units? (units?_half hF hhalf) hdifference]
    omega

theorem units?_roundHalfUp (hF : F.HoldsWhole) (hhalf : F.HoldsHalf) (hx : x.units? = some u) :
    x.roundHalfUp.units? = some (halfUp u F.one * (F.one : Int)) := by
  have hone : (0 : Int) < F.one := Int.natCast_pos.mpr F.one_pos
  have hfinite : x.isFinite = true := by
    obtain ⟨_, _, rfl, _⟩ := units?_eq_some_iff.mp hx
    rfl
  have hfloor := units?_floor hF hx
  rw [roundHalfUp, if_pos hfinite, halfUp_eq_ite u hone]
  by_cases hle : (F.one : Int) ≤ 2 * (u % (F.one : Int))
  · -- There are digits behind the point, so the number is small and the next whole one fits.
    have hsmall : u.natAbs < Nat.pow 2 F.precision * F.one := by
      refine Nat.not_le.mp fun hlarge => ?_
      rw [Int.emod_eq_zero_of_dvd (one_dvd_of_large (fits_of_units? hx) hlarge)] at hle
      omega
    have hunit : (ofNat 1 : Binary F).units? = some (F.one : Int) := by
      rw [(ofNat_isInt hF Nat.one_le_two_pow).units?, Int.natCast_one, Int.one_mul]
    have hsum : u / (F.one : Int) * (F.one : Int) + F.one =
        (u / (F.one : Int) + 1) * (F.one : Int) := by
      rw [Int.add_mul, Int.one_mul]
    have hfits : F.Fits ((u / (F.one : Int) + 1) * (F.one : Int)).natAbs := by
      rw [Int.natAbs_mul, Int.natAbs_natCast]
      exact BinaryFormat.fits_whole hF (natAbs_floor_le hsmall).2
    rw [if_pos ((half_atMost_sub_floor_iff hF hhalf hx).mpr hle), if_pos hle, ← hsum]
    exact units?_add hfloor hunit (by rwa [hsum])
  · rw [if_neg (mt (half_atMost_sub_floor_iff hF hhalf hx).mp hle), if_neg hle]
    exact hfloor

/-- A whole number is its own floor, zeros of both signs included. -/
theorem floor_of_whole {k : Int} (hx : x.units? = some (k * F.one)) : x.floor = x := by
  obtain ⟨s, h, rfl, hu⟩ := units?_eq_some_iff.mp hx
  have hone : (F.one : Int) ≠ 0 := Int.natCast_ne_zero.mpr (Nat.ne_of_gt F.one_pos)
  change (if (k * F.one).natAbs = 0 then Binary.finite s (k * F.one).natAbs h
    else ofInt (signed s (k * F.one).natAbs / (F.one : Int))) = _
  rw [hu, Int.mul_ediv_cancel _ hone]
  by_cases hzero : (k * F.one).natAbs = 0
  · rw [if_pos hzero]
  · have hsign : decide (k * (F.one : Int) < 0) = s := by
      cases s with
      | false => exact decide_eq_false (by rw [← hu, signed, if_neg (by decide)]; omega)
      | true => exact decide_eq_true (by rw [← hu, signed, if_pos rfl]; omega)
    have hround := round_mul s h Nat.one_pos
    rw [Nat.mul_one] at hround
    rw [if_neg hzero, ofInt, ofUnits, hsign, hround]

/-- A whole number stays as it is, bit for bit. -/
theorem roundHalfUp_of_whole (hF : F.HoldsWhole) (hhalf : F.HoldsHalf) {k : Int}
    (hx : x.units? = some (k * F.one)) : x.roundHalfUp = x := by
  have hone := F.one_pos
  have hnot : ¬ half.atMost (x - x.floor) = true := by
    rw [half_atMost_sub_floor_iff hF hhalf hx, Int.mul_emod_left]
    omega
  rw [roundHalfUp, if_neg hnot, floor_of_whole hx, ite_self]

theorem roundHalfUp_idem (hF : F.HoldsWhole) (hhalf : F.HoldsHalf) (x : Binary F) :
    x.roundHalfUp.roundHalfUp = x.roundHalfUp := by
  cases x with
  | nan => rfl
  | infinite => rfl
  | finite s m h => exact roundHalfUp_of_whole hF hhalf (units?_roundHalfUp hF hhalf rfl)

theorem roundHalfUp_mono (hF : F.HoldsWhole) (hhalf : F.HoldsHalf) {x y : Binary F}
    (hxy : x.atMost y = true) : x.roundHalfUp.atMost y.roundHalfUp = true := by
  have hone : (0 : Int) < F.one := Int.natCast_pos.mpr F.one_pos
  cases x with
  | nan => cases hxy
  | infinite s =>
    cases y with
    | nan => cases hxy
    | infinite t => exact hxy
    | finite t n h =>
      rw [infinite_atMost_iff rfl] at hxy
      exact (infinite_atMost_iff (units?_roundHalfUp hF hhalf rfl)).mpr hxy
  | finite s m h =>
    cases y with
    | nan => cases hxy
    | infinite t =>
      rw [atMost_infinite_iff rfl] at hxy
      exact (atMost_infinite_iff (units?_roundHalfUp hF hhalf rfl)).mpr hxy
    | finite t n h' =>
      rw [atMost_iff_of_units? rfl rfl] at hxy
      refine (atMost_iff_of_units? (units?_roundHalfUp hF hhalf rfl)
        (units?_roundHalfUp hF hhalf rfl)).mpr ?_
      exact Int.mul_le_mul_of_nonneg_right (halfUp_mono hone hxy) (Int.le_of_lt hone)

/-- The value of a finite number. -/
def value? (x : Binary F) : Option ℚ := x.units?.map fun u : Int => (u : ℚ) / (F.one : ℚ)

theorem value?_eq_intCast_iff {k : Int} :
    x.value? = some (k : ℚ) ↔ x.units? = some (k * F.one) := by
  have hne : (F.one : ℚ) ≠ 0 := Nat.cast_ne_zero.mpr (Nat.ne_of_gt F.one_pos)
  have hvalue (u : Int) : (u : ℚ) / (F.one : ℚ) = k ↔ u = k * F.one := by
    rw [div_eq_iff hne, ← Int.cast_natCast, ← Int.cast_mul, Int.cast_inj]
  cases hu : x.units? with
  | none => simp [value?, hu]
  | some u => rw [value?, hu, Option.map_some, Option.some.injEq, Option.some.injEq, hvalue]

theorem value?_roundHalfUp (hF : F.HoldsWhole) (hhalf : F.HoldsHalf) {q : ℚ}
    (hx : x.value? = some q) : x.roundHalfUp.value? = some (⌊q + 1 / 2⌋ : ℚ) := by
  obtain ⟨u, hu, rfl⟩ := Option.map_eq_some_iff.mp hx
  rw [← halfUp_eq_floor u F.one_pos, value?_eq_intCast_iff]
  exact units?_roundHalfUp hF hhalf hu

end Binary

/--
In both formats: the whole number next to a finite number is the floor of the exact sum of the
number and one half. Rounding keeps the order of numbers, leaves a number that it has rounded as it
is, bit for bit, and changes neither infinities nor what is no number.
-/
theorem roundHalfUp_eq_floor {F : BinaryFormat} (hF : F = .binary64 ∨ F = .binary32)
    (x : Binary F) :
    (x.isFinite = true → ∃ q, x.value? = some q ∧
      x.roundHalfUp.value? = some (⌊q + 1 / 2⌋ : ℚ)) ∧
    (∀ y, x.atMost y = true → x.roundHalfUp.atMost y.roundHalfUp = true) ∧
    x.roundHalfUp.roundHalfUp = x.roundHalfUp ∧
    (x.isFinite = false → x.roundHalfUp = x) := by
  have hwhole : F.HoldsWhole := by
    rcases hF with rfl | rfl
    · exact BinaryFormat.holdsWhole_binary64
    · exact BinaryFormat.holdsWhole_binary32
  have hhalf : F.HoldsHalf := by
    rcases hF with rfl | rfl
    · exact BinaryFormat.holdsHalf_binary64
    · exact BinaryFormat.holdsHalf_binary32
  refine ⟨fun hfinite => ?_, fun y hxy => Binary.roundHalfUp_mono hwhole hhalf hxy,
    Binary.roundHalfUp_idem hwhole hhalf x, fun hfinite => ?_⟩
  · cases x with
    | nan => cases hfinite
    | infinite => cases hfinite
    | finite s m h => exact ⟨_, rfl, Binary.value?_roundHalfUp hwhole hhalf rfl⟩
  · rw [Binary.roundHalfUp, hfinite]
    rfl

/-- The least number above minus one, the greatest below zero, an infinity of the small format. -/
theorem roundHalfUp_eq_floor_around_half :
    (∃ x y : Binary64, x = .ofBits 0xbfefffffffffffff ∧ y = .ofBits 0x8000000000000001 ∧
      x.isFinite = true ∧ y.isFinite = true ∧ x.atMost y = true ∧
      (∃ q, x.value? = some q ∧ x.roundHalfUp.value? = some (⌊q + 1 / 2⌋ : ℚ)) ∧
      (∃ q, y.value? = some q ∧ y.roundHalfUp.value? = some (⌊q + 1 / 2⌋ : ℚ)) ∧
      x.roundHalfUp.atMost y.roundHalfUp = true) ∧
    (Binary.infinite true : Binary32).isFinite = false ∧
      (Binary.infinite true : Binary32).roundHalfUp = .infinite true := by
  have hx : (Binary.ofBits 0xbfefffffffffffff : Binary64).isFinite = true := by decide +kernel
  have hy : (Binary.ofBits 0x8000000000000001 : Binary64).isFinite = true := by decide +kernel
  have hxy : (Binary.ofBits 0xbfefffffffffffff : Binary64).atMost
      (.ofBits 0x8000000000000001) = true := by
    decide +kernel
  obtain ⟨hfloor, hmono, -⟩ := roundHalfUp_eq_floor (.inl rfl) (.ofBits 0xbfefffffffffffff)
  obtain ⟨hfloor', -⟩ := roundHalfUp_eq_floor (.inl rfl) (.ofBits 0x8000000000000001)
  obtain ⟨-, -, -, hsame⟩ := roundHalfUp_eq_floor (.inr rfl) (.infinite true)
  exact ⟨⟨_, _, rfl, rfl, hx, hy, hxy, hfloor hx, hfloor' hy, hmono _ hxy⟩, rfl, hsame rfl⟩

end PageScript
