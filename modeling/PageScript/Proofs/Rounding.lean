import PageScript.Binary.Arithmetic

/-!
# Rounding to the grid

Magnitudes on the grid are rounded to themselves, and rounding keeps the order. The whole numbers
up to two to the power of the precision are on the grid, so sums and products of them are exact.
-/

namespace PageScript

/-- A quotient is rounded up beyond its half way point, and there if it is odd. -/
theorem roundQuotient_eq (n d : Nat) :
    roundQuotient n d =
      if d < 2 * (n % d) ∨ 2 * (n % d) = d ∧ n / d % 2 = 1 then n / d + 1 else n / d := by
  simp only [roundQuotient]
  by_cases hbelow : 2 * (n % d) < d
  · rw [if_pos hbelow, if_neg (by omega)]
  by_cases habove : d < 2 * (n % d)
  · rw [if_neg hbelow, if_pos habove, if_pos (.inl habove)]
  · rw [if_neg hbelow, if_neg habove]
    split <;> split <;> omega

theorem div_le_roundQuotient (n d : Nat) : n / d ≤ roundQuotient n d := by
  rw [roundQuotient_eq]
  split <;> omega

theorem roundQuotient_mul (q : Nat) {d : Nat} (hd : 0 < d) : roundQuotient (q * d) d = q := by
  rw [roundQuotient_eq, Nat.mul_mod_left, Nat.mul_div_cancel q hd, if_neg (by omega)]

theorem roundQuotient_mono {n n' : Nat} (h : n ≤ n') (d : Nat) :
    roundQuotient n d ≤ roundQuotient n' d := by
  have hdiv : n / d ≤ n' / d := Nat.div_le_div_right h
  by_cases hlt : n / d < n' / d
  · have hle := roundQuotient_le n d
    have hge := div_le_roundQuotient n' d
    omega
  · -- The whole parts are the same, so the remainders decide.
    have hsame : n / d = n' / d := by omega
    have hmod : n % d ≤ n' % d := by
      have hn := Nat.div_add_mod n d
      have hn' := Nat.div_add_mod n' d
      rw [hsame] at hn
      omega
    rw [roundQuotient_eq, roundQuotient_eq, hsame]
    split <;> split <;> omega

/-- A quotient is rounded by at most one half, up or down. -/
theorem roundQuotient_close (n : Nat) {d : Nat} (hd : 0 < d) :
    2 * n ≤ 2 * (d * roundQuotient n d) + d ∧ 2 * (d * roundQuotient n d) ≤ 2 * n + d := by
  have hdiv := Nat.div_add_mod n d
  have hmod := Nat.mod_lt n hd
  rw [roundQuotient_eq]
  split
  · rw [Nat.mul_add, Nat.mul_one]
    omega
  · omega

/-- Only the value of a quotient matters. -/
theorem roundQuotient_mul_mul (n d : Nat) {k : Nat} (hk : 0 < k) :
    roundQuotient (n * k) (d * k) = roundQuotient n d := by
  have hhalf : d * k < 2 * (n % d * k) ↔ d < 2 * (n % d) := by
    rw [← Nat.mul_assoc]
    exact Nat.mul_lt_mul_right hk
  have heven : 2 * (n % d * k) = d * k ↔ 2 * (n % d) = d := by
    rw [← Nat.mul_assoc]
    exact Nat.mul_left_inj (Nat.ne_of_gt hk)
  simp only [roundQuotient_eq, Nat.mul_mod_mul_right, Nat.mul_div_mul_right n d hk, hhalf, heven]

namespace BinaryFormat

variable (F : BinaryFormat)

theorem spacing_pos (m : Nat) : 0 < F.spacing m := Nat.two_pow_pos _

theorem nearest_mul {m d : Nat} (hm : F.OnGrid m) (hd : 0 < d) : F.nearest (m * d) d = m := by
  obtain ⟨q, hq⟩ := hm
  have hpos : 0 < d * F.spacing m := Nat.mul_pos hd (F.spacing_pos m)
  have hsteps : m * d = q * (d * F.spacing m) := by
    calc m * d = F.spacing m * q * d := by rw [← hq]
      _ = q * (d * F.spacing m) := by ac_rfl
  simp only [nearest, Nat.mul_div_cancel m hd]
  rw [hsteps, roundQuotient_mul q hpos, Nat.mul_comm, ← hq]

theorem nearest_mul_mul (n d : Nat) {k : Nat} (hk : 0 < k) :
    F.nearest (n * k) (d * k) = F.nearest n d := by
  simp only [nearest, Nat.mul_div_mul_right n d hk]
  rw [Nat.mul_right_comm, roundQuotient_mul_mul _ _ hk]

theorem nearest_self {m : Nat} (hm : F.OnGrid m) : F.nearest m 1 = m := by
  have h := F.nearest_mul hm Nat.one_pos
  rwa [Nat.mul_one] at h

/-- Rounding does not go beyond the power of two where the grid becomes coarser. -/
theorem nearest_le (n d : Nat) :
    F.nearest n d ≤ Nat.pow 2 (F.precision + F.gridExponent (n / d)) := by
  have hlt := F.div_spacing_lt n d
  have hle := roundQuotient_le n (d * F.spacing (n / d))
  have hquotient : roundQuotient n (d * F.spacing (n / d)) ≤ Nat.pow 2 F.precision := by omega
  rw [Nat.pow_eq, Nat.pow_add]
  exact Nat.mul_le_mul_right _ hquotient

/-- Nor does it go below the power of two where the grid became as coarse as it is. -/
theorem le_nearest {n d : Nat} (h : F.gridExponent (n / d) ≠ 0) :
    Nat.pow 2 (F.fractionBits + F.gridExponent (n / d)) ≤ F.nearest n d := by
  have hlog : (n / d).log2 = F.fractionBits + F.gridExponent (n / d) := by
    simp only [gridExponent, precision] at h ⊢
    omega
  have hne : n / d ≠ 0 := by
    intro hzero
    rw [hzero] at h hlog
    rw [Nat.log2_zero] at hlog
    omega
  have hle : 2 ^ (F.fractionBits + F.gridExponent (n / d)) ≤ n / d := by
    rw [← hlog]
    exact Nat.log2_self_le hne
  have hquotient : 2 ^ F.fractionBits ≤ n / (d * F.spacing (n / d)) := by
    rw [← Nat.div_div_eq_div_mul, Nat.le_div_iff_mul_le (F.spacing_pos _), spacing, Nat.pow_eq,
      ← Nat.pow_add]
    exact hle
  have hrounded := Nat.le_trans hquotient (div_le_roundQuotient n (d * F.spacing (n / d)))
  rw [Nat.pow_eq, Nat.pow_add]
  exact Nat.mul_le_mul_right _ hrounded

theorem gridExponent_mono {m m' : Nat} (h : m ≤ m') : F.gridExponent m ≤ F.gridExponent m' := by
  by_cases hm : m = 0
  · rw [hm, gridExponent, Nat.log2_zero, precision]
    omega
  have hlog : m.log2 ≤ m'.log2 :=
    (Nat.le_log2 (by omega)).mpr (Nat.le_trans (Nat.log2_self_le hm) h)
  simp only [gridExponent]
  omega

theorem nearest_mono {n n' : Nat} (h : n ≤ n') (d : Nat) : F.nearest n d ≤ F.nearest n' d := by
  have hexponent := F.gridExponent_mono (Nat.div_le_div_right (c := d) h)
  by_cases hsame : F.gridExponent (n / d) = F.gridExponent (n' / d)
  · have hspacing : F.spacing (n / d) = F.spacing (n' / d) := congrArg (Nat.pow 2) hsame
    simp only [nearest, hspacing]
    exact Nat.mul_le_mul_right _ (roundQuotient_mono h _)
  · -- A power of two lies between the two quotients, and neither is rounded across it.
    calc F.nearest n d ≤ Nat.pow 2 (F.precision + F.gridExponent (n / d)) := F.nearest_le n d
      _ ≤ Nat.pow 2 (F.fractionBits + F.gridExponent (n' / d)) := by
        apply Nat.pow_le_pow_right (by decide)
        rw [precision]
        omega
      _ ≤ F.nearest n' d := F.le_nearest (by omega)

/-- The quotient is rounded by at most half the spacing, up or down. -/
theorem nearest_close (n : Nat) {d : Nat} (hd : 0 < d) :
    2 * n ≤ 2 * (d * F.nearest n d) + d * F.spacing (n / d) ∧
      2 * (d * F.nearest n d) ≤ 2 * n + d * F.spacing (n / d) := by
  have hclose := roundQuotient_close n (Nat.mul_pos hd (F.spacing_pos (n / d)))
  have hunits : d * F.nearest n d =
      d * F.spacing (n / d) * roundQuotient n (d * F.spacing (n / d)) := by
    simp only [nearest]
    ac_rfl
  rwa [hunits]

/-- The spacing is small next to a magnitude, but for the very least magnitudes. -/
theorem two_pow_mul_spacing_le {m : Nat} (hm : Nat.pow 2 F.fractionBits ≤ m) :
    Nat.pow 2 F.fractionBits * F.spacing m ≤ m := by
  have hpos : m ≠ 0 := Nat.ne_of_gt (Nat.lt_of_lt_of_le (Nat.two_pow_pos _) hm)
  have hlog : F.fractionBits + F.gridExponent m ≤ m.log2 := by
    have hle : F.fractionBits ≤ m.log2 := (Nat.le_log2 hpos).mpr hm
    rw [gridExponent, precision]
    omega
  rw [spacing, Nat.pow_eq, Nat.pow_eq, ← Nat.pow_add]
  exact (Nat.le_log2 hpos).mp hlog

/-- Rounding changes a quotient by a part of it that is small, up or down. -/
theorem nearest_relative {n d : Nat} (hd : 0 < d) (hn : Nat.pow 2 F.fractionBits ≤ n / d) :
    Nat.pow 2 F.precision * n ≤ (Nat.pow 2 F.precision + 1) * (d * F.nearest n d) ∧
      Nat.pow 2 F.precision * (d * F.nearest n d) ≤ (Nat.pow 2 F.precision + 1) * n := by
  obtain ⟨hbelow, habove⟩ := F.nearest_close n hd
  have hspacing := F.two_pow_mul_spacing_le hn
  have hpower : Nat.pow 2 F.precision = 2 * Nat.pow 2 F.fractionBits := Nat.pow_succ'
  have hrounded : Nat.pow 2 F.fractionBits * F.spacing (n / d) ≤ F.nearest n d := by
    refine Nat.mul_le_mul_right _ (Nat.le_trans ?_ (div_le_roundQuotient n _))
    rwa [← Nat.div_div_eq_div_mul, Nat.le_div_iff_mul_le (F.spacing_pos _)]
  rw [hpower]
  generalize Nat.pow 2 F.fractionBits = half at hspacing hrounded
  have hsmall : half * (d * F.spacing (n / d)) ≤ d * F.nearest n d := by
    rw [Nat.mul_left_comm]
    exact Nat.mul_le_mul_left d hrounded
  have hsmall' : half * (d * F.spacing (n / d)) ≤ n := by
    rw [Nat.mul_left_comm]
    exact Nat.le_trans (Nat.mul_le_mul_left d hspacing) (Nat.mul_div_le n d)
  constructor
  · calc 2 * half * n = half * (2 * n) := by ac_rfl
      _ ≤ half * (2 * (d * F.nearest n d) + d * F.spacing (n / d)) := Nat.mul_le_mul_left _ hbelow
      _ = 2 * half * (d * F.nearest n d) + half * (d * F.spacing (n / d)) := by
        rw [Nat.mul_add]
        ac_rfl
      _ ≤ (2 * half + 1) * (d * F.nearest n d) := by
        rw [Nat.add_mul, Nat.one_mul]
        omega
  · calc 2 * half * (d * F.nearest n d) = half * (2 * (d * F.nearest n d)) := by ac_rfl
      _ ≤ half * (2 * n + d * F.spacing (n / d)) := Nat.mul_le_mul_left _ habove
      _ = 2 * half * n + half * (d * F.spacing (n / d)) := by
        rw [Nat.mul_add]
        ac_rfl
      _ ≤ (2 * half + 1) * n := by
        rw [Nat.add_mul, Nat.one_mul]
        omega

/-- All whole numbers up to two to the power of the precision are finite numbers. -/
def HoldsWhole : Prop := Nat.pow 2 F.precision * F.one < F.limit

theorem holdsWhole_binary64 : binary64.HoldsWhole := by
  unfold HoldsWhole
  decide +kernel

variable {F}

/-- A multiple of the spacing around a magnitude that is not greater is on the grid too. -/
theorem OnGrid.of_dvd {m c : Nat} (hdvd : F.spacing m ∣ c) (hle : c ≤ m) : F.OnGrid c :=
  Nat.dvd_trans (Nat.pow_dvd_pow 2 (F.gridExponent_mono hle)) hdvd

/-- A multiple of the spacing can be taken away without leaving the grid. -/
theorem Fits.sub {m c : Nat} (hm : F.Fits m) (hc : F.spacing m ∣ c) : F.Fits (m - c) :=
  ⟨.of_dvd (Nat.dvd_sub hm.1 hc) (Nat.sub_le m c), Nat.lt_of_le_of_lt (Nat.sub_le m c) hm.2⟩

/-- Below two to the power of the precision the spacing divides one. -/
theorem spacing_dvd_one {m : Nat} (hm : m < Nat.pow 2 F.precision * F.one) :
    F.spacing m ∣ F.one := by
  refine Nat.pow_dvd_pow 2 ?_
  by_cases hzero : m = 0
  · rw [hzero, gridExponent, Nat.log2_zero, precision]
    omega
  rw [one, Nat.pow_eq, Nat.pow_eq, ← Nat.pow_add] at hm
  have hlog := (Nat.log2_lt hzero).mpr hm
  simp only [gridExponent]
  omega

/-- From there on one divides the spacing, so that all numbers are whole. -/
theorem one_dvd_spacing {m : Nat} (hm : Nat.pow 2 F.precision * F.one ≤ m) :
    F.one ∣ F.spacing m := by
  refine Nat.pow_dvd_pow 2 ?_
  rw [one, Nat.pow_eq, Nat.pow_eq, ← Nat.pow_add] at hm
  have hpos : m ≠ 0 := Nat.ne_of_gt (Nat.lt_of_lt_of_le (Nat.two_pow_pos _) hm)
  have hlog := (Nat.le_log2 hpos).mpr hm
  simp only [gridExponent]
  omega

theorem fits_whole (hF : F.HoldsWhole) {n : Nat} (hn : n ≤ Nat.pow 2 F.precision) :
    F.Fits (n * F.one) := by
  refine ⟨?_, Nat.lt_of_le_of_lt (Nat.mul_le_mul_right _ hn) hF⟩
  by_cases hlt : n < Nat.pow 2 F.precision
  · exact F.onGrid_mul_pow n _ hlt
  · have hpow : n = Nat.pow 2 F.precision := by omega
    rw [hpow, one, Nat.pow_eq, Nat.pow_eq, ← Nat.pow_add]
    exact F.onGrid_two_pow _

/-- Twos among the factors are left to the exponent. -/
theorem onGrid_mul_pow_mul_one (F : BinaryFormat) {n k : Nat} (hn : n < Nat.pow 2 F.precision) :
    F.OnGrid (n * Nat.pow 2 k * F.one) := by
  obtain ⟨l, hl⟩ : ∃ l, F.one = Nat.pow 2 l := ⟨_, rfl⟩
  rw [Nat.mul_assoc, hl, Nat.pow_eq, Nat.pow_eq, ← Nat.pow_add]
  exact F.onGrid_mul_pow n _ hn

theorem fits_mul_pow {n k : Nat} (hn : n < Nat.pow 2 F.precision)
    (hlimit : Nat.pow 2 F.precision * Nat.pow 2 k * F.one ≤ F.limit) :
    F.Fits (n * Nat.pow 2 k * F.one) := by
  have hpos : 0 < Nat.pow 2 k * F.one := Nat.mul_pos (Nat.two_pow_pos _) F.one_pos
  refine ⟨F.onGrid_mul_pow_mul_one hn, Nat.lt_of_lt_of_le ?_ hlimit⟩
  rw [Nat.mul_assoc, Nat.mul_assoc]
  exact Nat.mul_lt_mul_of_pos_right hn hpos

end BinaryFormat

namespace Binary

variable {F : BinaryFormat}

theorem round_mul (negative : Bool) {m d : Nat} (hm : F.Fits m) (hd : 0 < d) :
    round negative (m * d) d = .finite negative m hm := by
  have hnearest := F.nearest_mul hm.1 hd
  simp only [round, hnearest]
  rw [dif_pos hm.2]

/-- The number is an integer, without rounding. Of the two zeros it is the positive one. -/
def IsInt (x : Binary F) (k : Int) : Prop := ∃ h, x = .finite (k < 0) (k.natAbs * F.one) h

theorem IsInt.unique {x y : Binary F} {k : Int} (hx : x.IsInt k) (hy : y.IsInt k) : x = y := by
  obtain ⟨_, rfl⟩ := hx
  obtain ⟨_, rfl⟩ := hy
  rfl

theorem isInt_natCast_iff {x : Binary F} {n : Nat} :
    x.IsInt n ↔ ∃ h, x = .finite false (n * F.one) h := by
  have hsign : decide ((n : Int) < 0) = false := decide_eq_false (by omega)
  rw [IsInt, hsign]
  rfl

theorem isInt_zero : (zero false : Binary F).IsInt 0 := by
  refine isInt_natCast_iff (n := 0).mpr ⟨(Nat.zero_mul F.one).symm ▸ F.fits_zero, ?_⟩
  simp [zero]

/-- The signed magnitude of a whole number. -/
theorem signed_natAbs (k : Int) (units : Nat) :
    signed (k < 0) (k.natAbs * units) = k * units := by
  by_cases hk : k < 0
  · rw [signed, if_pos (by simpa using hk), Int.natCast_mul, Int.ofNat_natAbs_of_nonpos (by omega),
      Int.neg_mul, Int.neg_neg]
  · rw [signed, if_neg (by simpa using hk), Int.natCast_mul, Int.natAbs_of_nonneg (by omega)]

theorem IsInt.neg {x : Binary F} {n : Nat} (hx : x.IsInt n) (hn : n ≠ 0) :
    (-x).IsInt (-n : Int) := by
  obtain ⟨h, rfl⟩ := isInt_natCast_iff.mp hx
  have hsign : decide ((-n : Int) < 0) = true := decide_eq_true (by omega)
  have habs : (-n : Int).natAbs * F.one = n * F.one := by rw [Int.natAbs_neg, Int.natAbs_natCast]
  refine ⟨habs ▸ h, ?_⟩
  simp only [hsign, habs]
  rfl

section Whole

variable (hF : F.HoldsWhole)
include hF

theorem ofInt_isInt {k : Int} (hk : k.natAbs ≤ Nat.pow 2 F.precision) :
    (ofInt k : Binary F).IsInt k := by
  have hfits : F.Fits (k.natAbs * F.one) := BinaryFormat.fits_whole hF hk
  have habs : (k * F.one).natAbs = k.natAbs * F.one * 1 := by
    rw [Int.natAbs_mul, Int.natAbs_natCast, Nat.mul_one]
  have hsign : k * (F.one : Int) < 0 ↔ k < 0 := by
    have hone : 0 < (F.one : Int) := Int.natCast_pos.mpr F.one_pos
    constructor
    · intro h
      exact Int.lt_of_mul_lt_mul_right (by rwa [Int.zero_mul]) (Int.le_of_lt hone)
    · intro h
      exact Int.mul_neg_of_neg_of_pos h hone
  refine ⟨hfits, ?_⟩
  rw [ofInt, ofUnits, habs, decide_eq_decide.mpr hsign]
  exact round_mul _ hfits Nat.one_pos

theorem ofNat_isInt {n : Nat} (hn : n ≤ Nat.pow 2 F.precision) : (ofNat n : Binary F).IsInt n := by
  have hfits : F.Fits (n * F.one) := BinaryFormat.fits_whole hF hn
  have hround := round_mul false hfits Nat.one_pos
  rw [Nat.mul_one] at hround
  exact isInt_natCast_iff.mpr ⟨hfits, hround⟩

theorem IsInt.add {x y : Binary F} {j k : Int} (hx : x.IsInt j) (hy : y.IsInt k)
    (hsum : (j + k).natAbs ≤ Nat.pow 2 F.precision) : (x + y).IsInt (j + k) := by
  obtain ⟨hxfits, rfl⟩ := hx
  obtain ⟨hyfits, rfl⟩ := hy
  change IsInt (if signed (j < 0) (j.natAbs * F.one) + signed (k < 0) (k.natAbs * F.one) = 0 then
    zero (decide (j < 0) && decide (k < 0)) else ofUnits _) (j + k)
  rw [signed_natAbs, signed_natAbs, ← Int.add_mul]
  by_cases hzero : j + k = 0
  · have hsigns : (decide (j < 0) && decide (k < 0)) = false := by
      rw [Bool.and_eq_false_iff, decide_eq_false_iff_not, decide_eq_false_iff_not]
      omega
    rw [hzero, Int.zero_mul, if_pos rfl, hsigns]
    exact isInt_zero
  · have hone : (F.one : Int) ≠ 0 := by
      have := F.one_pos
      omega
    rw [if_neg (Int.mul_ne_zero hzero hone)]
    exact ofInt_isInt hF hsum

theorem IsInt.mul {x y : Binary F} {m n : Nat} (hx : x.IsInt m) (hy : y.IsInt n)
    (hproduct : m * n ≤ Nat.pow 2 F.precision) : (x * y).IsInt (m * n : Nat) := by
  obtain ⟨_, rfl⟩ := isInt_natCast_iff.mp hx
  obtain ⟨_, rfl⟩ := isInt_natCast_iff.mp hy
  have hfits : F.Fits (m * n * F.one) := BinaryFormat.fits_whole hF hproduct
  have hunits : m * F.one * (n * F.one) = m * n * F.one * F.one := by ac_rfl
  refine isInt_natCast_iff.mpr ⟨hfits, ?_⟩
  change round false (m * F.one * (n * F.one)) F.one = _
  rw [hunits, round_mul false hfits F.one_pos]

end Whole

end Binary

end PageScript
