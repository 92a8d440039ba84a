/-!
# Binary formats and their grid

A format of `fractionBits` and `exponentBits` has a least positive number, its unit. Every
finite number of the format is a whole number of units, its magnitude. Below
`2 ^ precision` units every whole number is on the grid; above, the spacing doubles with
each power of two. `BinaryFormat.nearest` rounds a quotient of naturals to that grid, halves
to the even neighbour, and `nearest_onGrid` says that it lands there.
-/

namespace PageScript

/-- A binary interchange format: the widths of its fraction and exponent fields. -/
structure BinaryFormat where
  fractionBits : Nat
  exponentBits : Nat
deriving DecidableEq, Repr

/-- `n / d` rounded to a whole number, a half to the even neighbour. -/
def roundQuotient (n d : Nat) : Nat :=
  let q := n / d
  let r := n % d
  if 2 * r < d then q
  else if d < 2 * r then q + 1
  else if q % 2 = 0 then q else q + 1

theorem roundQuotient_le (n d : Nat) : roundQuotient n d ≤ n / d + 1 := by
  simp only [roundQuotient]
  split
  · omega
  · split
    · omega
    · split <;> omega

namespace BinaryFormat

def binary64 : BinaryFormat := ⟨52, 11⟩

def binary32 : BinaryFormat := ⟨23, 8⟩

def precision (F : BinaryFormat) : Nat := F.fractionBits + 1

/-- The exponent field of infinities and of numbers that are none. -/
def topField (F : BinaryFormat) : Nat := Nat.pow 2 F.exponentBits - 1

/-- How many units make one. -/
def one (F : BinaryFormat) : Nat :=
  Nat.pow 2 (Nat.pow 2 (F.exponentBits - 1) - 2 + F.fractionBits)

/-- The least magnitude that is too large for a finite number. -/
def limit (F : BinaryFormat) : Nat := Nat.pow 2 (F.precision + (F.topField - 2))

/-- The exponent of the grid around a magnitude. -/
def gridExponent (F : BinaryFormat) (m : Nat) : Nat := m.log2 + 1 - F.precision

/-- The distance of neighbours on the grid around a magnitude. -/
def spacing (F : BinaryFormat) (m : Nat) : Nat := Nat.pow 2 (F.gridExponent m)

/-- A magnitude on the grid. -/
def OnGrid (F : BinaryFormat) (m : Nat) : Prop := F.spacing m ∣ m

/-- A magnitude of a finite number. -/
def Fits (F : BinaryFormat) (m : Nat) : Prop := F.OnGrid m ∧ m < F.limit

instance (F : BinaryFormat) (m : Nat) : Decidable (F.OnGrid m) :=
  inferInstanceAs (Decidable (_ ∣ _))

instance (F : BinaryFormat) (m : Nat) : Decidable (F.Fits m) :=
  inferInstanceAs (Decidable (_ ∧ _))

/-- The grid magnitude nearest to `n / d` units, a half to the even significand. -/
def nearest (F : BinaryFormat) (n d : Nat) : Nat :=
  let step := F.spacing (n / d)
  roundQuotient n (d * step) * step

theorem limit_pos (F : BinaryFormat) : 0 < F.limit := Nat.two_pow_pos _

theorem one_pos (F : BinaryFormat) : 0 < F.one := Nat.two_pow_pos _

theorem fits_zero (F : BinaryFormat) : F.Fits 0 := ⟨Nat.dvd_zero _, F.limit_pos⟩

/-- A significand of at most `precision` bits, shifted, is on the grid. -/
theorem onGrid_mul_pow (F : BinaryFormat) (c k : Nat) (h : c < Nat.pow 2 F.precision) :
    F.OnGrid (c * Nat.pow 2 k) := by
  rw [Nat.pow_eq] at h ⊢
  by_cases hc : c = 0
  · simp [hc, OnGrid]
  have hne : c * 2 ^ k ≠ 0 := Nat.mul_ne_zero hc (Nat.ne_of_gt (Nat.two_pow_pos k))
  have hlt : c * 2 ^ k < 2 ^ (F.precision + k) := by
    rw [Nat.pow_add]
    exact Nat.mul_lt_mul_of_pos_right h (Nat.two_pow_pos k)
  have hlog : (c * 2 ^ k).log2 < F.precision + k := (Nat.log2_lt hne).mpr hlt
  have hk : F.gridExponent (c * 2 ^ k) ≤ k := by
    simp only [gridExponent]
    omega
  exact Nat.dvd_trans (Nat.pow_dvd_pow 2 hk) (Nat.dvd_mul_left _ _)

/-- A power of two is on the grid. -/
theorem onGrid_two_pow (F : BinaryFormat) (k : Nat) : F.OnGrid (Nat.pow 2 k) := by
  have h := F.onGrid_mul_pow 1 k (Nat.one_lt_two_pow (by simp [precision]))
  simpa using h

/-- The part of a quotient above its grid exponent has at most `precision` bits. -/
theorem div_spacing_lt (F : BinaryFormat) (n d : Nat) :
    n / (d * F.spacing (n / d)) < Nat.pow 2 F.precision := by
  rw [← Nat.div_div_eq_div_mul]
  generalize n / d = q
  rw [spacing, Nat.pow_eq, Nat.pow_eq, Nat.div_lt_iff_lt_mul (Nat.two_pow_pos _), ← Nat.pow_add]
  apply Nat.lt_of_lt_of_le Nat.lt_log2_self
  apply Nat.pow_le_pow_right (by decide)
  simp only [gridExponent]
  omega

theorem nearest_onGrid (F : BinaryFormat) (n d : Nat) : F.OnGrid (F.nearest n d) := by
  have hlt := F.div_spacing_lt n d
  have hle := roundQuotient_le n (d * F.spacing (n / d))
  simp only [nearest]
  by_cases h : roundQuotient n (d * F.spacing (n / d)) < Nat.pow 2 F.precision
  · exact F.onGrid_mul_pow _ _ h
  · have hq : roundQuotient n (d * F.spacing (n / d)) = Nat.pow 2 F.precision := by omega
    rw [hq, spacing, Nat.pow_eq, Nat.pow_eq, ← Nat.pow_add]
    exact F.onGrid_two_pow _

end BinaryFormat

end PageScript
