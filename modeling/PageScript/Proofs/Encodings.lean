import PageScript.Proofs.Rounding

/-!
# Encodings tell numbers apart

The fields of an encoding are a sign, the exponent of a grid and a significand. Between grids the
codes go on where those of the finer grid end, so every magnitude has a code of its own, below those
of the infinities and of NaN.
-/

namespace PageScript

namespace BinaryFormat

variable {F : BinaryFormat} {m n : Nat}

/-- The encoding of a magnitude. -/
def code (F : BinaryFormat) (m : Nat) : Nat :=
  F.gridExponent m * Nat.pow 2 F.fractionBits + m / F.spacing m

theorem significand_lt (F : BinaryFormat) (m : Nat) :
    m / F.spacing m < 2 * Nat.pow 2 F.fractionBits := by
  have hlt := F.div_spacing_lt m 1
  rwa [Nat.div_one, Nat.one_mul, precision, Nat.pow_eq, Nat.pow_succ'] at hlt

/-- The first bit of a significand is set, except on the finest grid. -/
theorem le_significand (hm : F.gridExponent m ≠ 0) :
    Nat.pow 2 F.fractionBits ≤ m / F.spacing m := by
  have hlog : F.fractionBits < m.log2 := by
    simp only [gridExponent, precision] at hm
    omega
  have hle : Nat.pow 2 F.fractionBits ≤ m :=
    (Nat.le_log2 (by rintro rfl; simp at hlog)).mp (Nat.le_of_lt hlog)
  exact (Nat.le_div_iff_mul_le (F.spacing_pos m)).mpr (F.two_pow_mul_spacing_le hle)

/-- A coarser grid has greater codes. -/
theorem code_lt_of_gridExponent_lt (h : F.gridExponent m < F.gridExponent n) :
    F.code m < F.code n := by
  have hmul := Nat.mul_le_mul_right (Nat.pow 2 F.fractionBits) (Nat.succ_le_of_lt h)
  have hm := F.significand_lt m
  have hn := le_significand (F := F) (m := n) (by omega)
  rw [Nat.succ_mul] at hmul
  rw [code, code]
  omega

theorem code_inj (hm : F.OnGrid m) (hn : F.OnGrid n) (h : F.code m = F.code n) : m = n := by
  have hgrid : F.gridExponent m = F.gridExponent n := by
    rcases Nat.lt_trichotomy (F.gridExponent m) (F.gridExponent n) with hlt | heq | hgt
    · exact absurd h (Nat.ne_of_lt (code_lt_of_gridExponent_lt hlt))
    · exact heq
    · exact absurd h (Nat.ne_of_gt (code_lt_of_gridExponent_lt hgt))
  have hspacing : F.spacing m = F.spacing n := by rw [spacing, spacing, hgrid]
  rw [code, code, hgrid] at h
  have hsignificand : m / F.spacing m = n / F.spacing n := Nat.add_left_cancel h
  rw [← Nat.div_mul_cancel hm, ← Nat.div_mul_cancel hn, hsignificand, hspacing]

/-- The codes of finite numbers do not reach the top field. -/
theorem code_lt (hF : 2 ≤ F.topField) (hm : m < F.limit) :
    F.code m < F.topField * Nat.pow 2 F.fractionBits := by
  have hgrid : F.gridExponent m + 2 ≤ F.topField := by
    by_cases hzero : m = 0
    · simp only [hzero, gridExponent, precision, Nat.log2_zero]
      omega
    · have hlog : m.log2 < F.precision + (F.topField - 2) := (Nat.log2_lt hzero).mpr hm
      simp only [gridExponent]
      omega
  have hmul := Nat.mul_le_mul_right (Nat.pow 2 F.fractionBits) hgrid
  have hsignificand := F.significand_lt m
  rw [Nat.add_mul] at hmul
  rw [code]
  omega

/-- The fraction of a NaN. -/
def nanFraction (F : BinaryFormat) (signaling : Bool) : Nat :=
  if signaling then 1 else Nat.pow 2 (F.fractionBits - 1)

theorem nanFraction_bounds (hF : 2 ≤ F.fractionBits) (signaling : Bool) :
    0 < F.nanFraction signaling ∧ F.nanFraction signaling < Nat.pow 2 F.fractionBits := by
  cases signaling with
  | false => exact ⟨Nat.two_pow_pos _, Nat.pow_lt_pow_right (by decide) (by omega)⟩
  | true => exact ⟨Nat.one_pos, Nat.one_lt_two_pow (by omega)⟩

theorem nanFraction_inj (hF : 2 ≤ F.fractionBits) {s t : Bool}
    (h : F.nanFraction s = F.nanFraction t) : s = t := by
  have hquiet : 1 < Nat.pow 2 (F.fractionBits - 1) := Nat.one_lt_two_pow (by omega)
  cases s <;> cases t
  · rfl
  · exact absurd h (Nat.ne_of_gt hquiet)
  · exact absurd h (Nat.ne_of_lt hquiet)
  · rfl

end BinaryFormat

namespace Binary

open BinaryFormat (code_lt code_inj nanFraction_bounds nanFraction_inj)

variable {F : BinaryFormat} {x y : Binary F}

/-- The encoding without the sign. -/
def unsignedBits : Binary F → Nat
  | .nan signaling => F.topField * Nat.pow 2 F.fractionBits + F.nanFraction signaling
  | .infinite _ => F.topField * Nat.pow 2 F.fractionBits
  | .finite _ m _ => F.code m

theorem toBits_eq (x : Binary F) :
    x.toBits = x.isNegative.toNat * Nat.pow 2 (F.fractionBits + F.exponentBits) +
      x.unsignedBits := by
  cases x with
  | nan signaling =>
    rw [isNegative, Bool.toNat_false, Nat.zero_mul, Nat.zero_add]
    rfl
  | infinite s => rfl
  | finite s m h => exact Nat.add_assoc _ _ _

theorem unsignedBits_lt (htop : 2 ≤ F.topField) (hF : 2 ≤ F.fractionBits) (x : Binary F) :
    x.unsignedBits < Nat.pow 2 (F.fractionBits + F.exponentBits) := by
  have hwidth : Nat.pow 2 (F.fractionBits + F.exponentBits) =
      F.topField * Nat.pow 2 F.fractionBits + Nat.pow 2 F.fractionBits := by
    have hfield : F.topField + 1 = Nat.pow 2 F.exponentBits :=
      Nat.sub_add_cancel (Nat.two_pow_pos _)
    rw [← Nat.succ_mul, Nat.succ_eq_add_one, hfield, Nat.mul_comm]
    exact Nat.pow_add 2 _ _
  rw [hwidth]
  cases x with
  | nan signaling => exact Nat.add_lt_add_left (nanFraction_bounds hF signaling).2 _
  | infinite s => exact Nat.lt_add_of_pos_right (Nat.two_pow_pos _)
  | finite s m h => exact Nat.lt_of_lt_of_le (code_lt htop h.2) (Nat.le_add_right _ _)

/-- A sign bit above two codes is told apart from them. -/
theorem sign_append_inj {s t : Bool} {w a b : Nat} (ha : a < w) (hb : b < w)
    (h : s.toNat * w + a = t.toNat * w + b) : s = t ∧ a = b := by
  cases s <;> cases t <;> simp at h ⊢ <;> omega

/-- Different numbers have different encodings. -/
theorem toBits_inj (htop : 2 ≤ F.topField) (hF : 2 ≤ F.fractionBits)
    (h : x.toBits = y.toBits) : x = y := by
  rw [toBits_eq, toBits_eq] at h
  obtain ⟨hsign, hrest⟩ := sign_append_inj (unsignedBits_lt htop hF x) (unsignedBits_lt htop hF y) h
  -- Finite numbers are below the infinities, and these are below every NaN.
  have hinfinite (s t : Bool) : (infinite s : Binary F).unsignedBits < (nan t).unsignedBits :=
    Nat.lt_add_of_pos_right (nanFraction_bounds hF t).1
  have hfinite {m : Nat} (s t : Bool) (hm : F.Fits m) :
      (finite s m hm).unsignedBits < (infinite t : Binary F).unsignedBits := code_lt htop hm.2
  cases x with
  | nan a =>
    cases y with
    | nan b => rw [nanFraction_inj hF (Nat.add_left_cancel hrest)]
    | infinite t => exact absurd hrest (Nat.ne_of_gt (hinfinite t a))
    | finite t n hn =>
      exact absurd hrest (Nat.ne_of_gt (Nat.lt_trans (hfinite t t hn) (hinfinite t a)))
  | infinite s =>
    cases y with
    | nan b => exact absurd hrest (Nat.ne_of_lt (hinfinite s b))
    | infinite t =>
      obtain rfl : s = t := hsign
      rfl
    | finite t n hn => exact absurd hrest (Nat.ne_of_gt (hfinite t s hn))
  | finite s m hm =>
    cases y with
    | nan b => exact absurd hrest (Nat.ne_of_lt (Nat.lt_trans (hfinite s s hm) (hinfinite s b)))
    | infinite t => exact absurd hrest (Nat.ne_of_lt (hfinite s t hm))
    | finite t n hn =>
      obtain rfl : s = t := hsign
      obtain rfl : m = n := code_inj hm.1 hn.1 hrest
      rfl

end Binary

end PageScript
