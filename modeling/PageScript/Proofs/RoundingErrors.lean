import PageScript.Proofs.Units

/-!
# Errors of several roundings

A rounding changes a magnitude by at most one part in two to the power of the precision, except for
the very least magnitudes. In products these factors add up, and `LeUpTo` and `Near` count them.
`Binary.IsNear` counts the roundings of a number that should be a natural number, and what products
and sums add to them.
-/

namespace PageScript

namespace BinaryFormat

variable {F : BinaryFormat} {c d k m n m' n' : Nat}

/-- One magnitude is at most another, up to the factors of so many roundings. -/
def LeUpTo (F : BinaryFormat) (roundings m n : Nat) : Prop :=
  Nat.pow (Nat.pow 2 F.precision) roundings * m ≤
    Nat.pow (Nat.pow 2 F.precision + 1) roundings * n

namespace LeUpTo

theorem of_le (c : Nat) (h : m ≤ n) : F.LeUpTo c m n :=
  Nat.mul_le_mul (Nat.pow_le_pow_left (Nat.le_succ _) c) h

theorem le (h : F.LeUpTo 0 m n) : m ≤ n := by
  simpa only [LeUpTo, Nat.pow_eq, Nat.pow_zero, Nat.one_mul] using h

theorem mul (h : F.LeUpTo c m n) (h' : F.LeUpTo d m' n') : F.LeUpTo (c + d) (m * m') (n * n') := by
  unfold LeUpTo at h h' ⊢
  generalize Nat.pow 2 F.precision = whole at h h' ⊢
  calc Nat.pow whole (c + d) * (m * m') = Nat.pow whole c * m * (Nat.pow whole d * m') := by
        simp only [Nat.pow_eq, Nat.pow_add]
        ac_rfl
    _ ≤ Nat.pow (whole + 1) c * n * (Nat.pow (whole + 1) d * n') := Nat.mul_le_mul h h'
    _ = Nat.pow (whole + 1) (c + d) * (n * n') := by
        simp only [Nat.pow_eq, Nat.pow_add]
        ac_rfl

theorem add (h : F.LeUpTo c m n) (h' : F.LeUpTo c m' n') : F.LeUpTo c (m + m') (n + n') := by
  unfold LeUpTo at h h' ⊢
  rw [Nat.mul_add, Nat.mul_add]
  exact Nat.add_le_add h h'

theorem of_mul_right (hk : 0 < k) (h : F.LeUpTo c (m * k) (n * k)) : F.LeUpTo c m n := by
  unfold LeUpTo at h ⊢
  rw [← Nat.mul_assoc, ← Nat.mul_assoc] at h
  exact Nat.le_of_mul_le_mul_right h hk

/-- The roundings on the way from one magnitude to another and on to a third add up. -/
theorem trans (h : F.LeUpTo c m n) (h' : F.LeUpTo d n k) : F.LeUpTo (c + d) m k := by
  by_cases hn : n = 0
  · have hm : m = 0 := by
      unfold LeUpTo at h
      rw [hn, Nat.mul_zero] at h
      have hpos : 0 < Nat.pow (Nat.pow 2 F.precision) c := Nat.pow_pos (Nat.two_pow_pos _)
      exact (Nat.mul_eq_zero.mp (Nat.le_zero.mp h)).resolve_left (Nat.ne_of_gt hpos)
    rw [hm]
    exact of_le _ (Nat.zero_le k)
  · refine of_mul_right (Nat.pos_of_ne_zero hn) ?_
    rw [Nat.mul_comm k n]
    exact h.mul h'

theorem mono (h : F.LeUpTo c m n) (hcd : c ≤ d) : F.LeUpTo d m n := by
  obtain ⟨e, rfl⟩ := Nat.exists_eq_add_of_le hcd
  exact h.trans (of_le e (Nat.le_refl n))

/-- A bound on the factors of more roundings, as a fraction. -/
theorem mul_le_mul {a b : Nat} (h : F.LeUpTo c m n) (hcd : c ≤ d)
    (hfactors : a * Nat.pow (Nat.pow 2 F.precision + 1) d ≤ b * Nat.pow (Nat.pow 2 F.precision) d) :
    a * m ≤ b * n := by
  have hmono := h.mono hcd
  have hpos : 0 < Nat.pow (Nat.pow 2 F.precision) d := Nat.pow_pos (Nat.two_pow_pos _)
  unfold LeUpTo at hmono
  generalize Nat.pow (Nat.pow 2 F.precision + 1) d = above at hfactors hmono
  generalize Nat.pow (Nat.pow 2 F.precision) d = below at hfactors hpos hmono
  refine Nat.le_of_mul_le_mul_left ?_ hpos
  calc below * (a * m) = a * (below * m) := Nat.mul_left_comm _ _ _
    _ ≤ a * (above * n) := Nat.mul_le_mul_left _ hmono
    _ = a * above * n := (Nat.mul_assoc _ _ _).symm
    _ ≤ b * below * n := Nat.mul_le_mul_right _ hfactors
    _ = below * (b * n) := by ac_rfl

end LeUpTo

/-- A magnitude is an exact one up to so many roundings, either way. -/
structure Near (F : BinaryFormat) (roundings exact m : Nat) : Prop where
  notBelow : F.LeUpTo roundings exact m
  notAbove : F.LeUpTo roundings m exact

namespace Near

theorem refl (c m : Nat) : F.Near c m m := ⟨.of_le c (Nat.le_refl m), .of_le c (Nat.le_refl m)⟩

/-- Without roundings nothing changes. -/
theorem eq (h : F.Near 0 m n) : n = m := Nat.le_antisymm h.notAbove.le h.notBelow.le

theorem mono (h : F.Near c m n) (hcd : c ≤ d) : F.Near d m n :=
  ⟨h.notBelow.mono hcd, h.notAbove.mono hcd⟩

theorem mul (h : F.Near c m n) (h' : F.Near d m' n') : F.Near (c + d) (m * m') (n * n') :=
  ⟨h.notBelow.mul h'.notBelow, h.notAbove.mul h'.notAbove⟩

theorem add (h : F.Near c m n) (h' : F.Near c m' n') : F.Near c (m + m') (n + n') :=
  ⟨h.notBelow.add h'.notBelow, h.notAbove.add h'.notAbove⟩

/-- A quotient that is rounded has one rounding more than its numerator. -/
theorem nearest (h : F.Near c (m * d) n) (hd : 0 < d) (hn : Nat.pow 2 F.fractionBits ≤ n / d) :
    F.Near (c + 1) m (F.nearest n d) := by
  obtain ⟨hbelow, habove⟩ := F.nearest_relative hd hn
  rw [Nat.mul_comm d] at hbelow habove
  have hpow (whole : Nat) : Nat.pow whole 1 = whole := Nat.pow_one whole
  have hfrom : F.LeUpTo 1 n (F.nearest n d * d) := by
    rwa [LeUpTo, hpow, hpow]
  have hto : F.LeUpTo 1 (F.nearest n d * d) n := by
    rwa [LeUpTo, hpow, hpow]
  rw [Nat.add_comm c]
  exact ⟨.of_mul_right hd (Nat.add_comm c 1 ▸ h.notBelow.trans hfrom),
    .of_mul_right hd (hto.trans h.notAbove)⟩

end Near

/-- One has room below it, and so many roundings change nothing by more than a tenth. -/
structure HoldsRoundings (F : BinaryFormat) (greatest : Nat) : Prop where
  normal : 4 * Nat.pow 2 F.fractionBits ≤ F.one
  roundings : 10 * Nat.pow (Nat.pow 2 F.precision + 1) greatest ≤
    11 * Nat.pow (Nat.pow 2 F.precision) greatest

theorem holdsRoundings_binary64 : binary64.HoldsRoundings 308 where
  normal := by decide +kernel
  roundings := by decide +kernel

namespace HoldsRoundings

variable {greatest : Nat} (hF : F.HoldsRoundings greatest)
include hF

theorem near_lt_limit (h : F.Near c m n) (hc : c ≤ greatest) (hm : 11 * m < 10 * F.limit) :
    n < F.limit := by
  have hle := h.notAbove.mul_le_mul hc hF.roundings
  omega

theorem le_near (h : F.Near c m n) (hc : c ≤ greatest) : 10 * m ≤ 11 * n :=
  h.notBelow.mul_le_mul hc hF.roundings

theorem one_le_near (h : F.Near c (k * F.one) n) (hk : 0 < k) (hc : c ≤ greatest) :
    F.one ≤ 2 * n := by
  have hnear := hF.le_near h hc
  have hle : F.one ≤ k * F.one := Nat.le_mul_of_pos_left _ hk
  omega

/-- Products of numbers that are not below one half can be rounded with a small relative error. -/
theorem le_mul_div (hm : F.one ≤ 2 * m) (hn : F.one ≤ 2 * n) :
    Nat.pow 2 F.fractionBits ≤ m * n / F.one := by
  rw [Nat.le_div_iff_mul_le F.one_pos]
  refine Nat.le_of_mul_le_mul_left ?_ (show 0 < 4 by decide)
  calc 4 * (Nat.pow 2 F.fractionBits * F.one) = 4 * Nat.pow 2 F.fractionBits * F.one :=
        (Nat.mul_assoc _ _ _).symm
    _ ≤ F.one * F.one := Nat.mul_le_mul_right _ hF.normal
    _ ≤ 2 * m * (2 * n) := Nat.mul_le_mul hm hn
    _ = 4 * (m * n) := by rw [Nat.mul_mul_mul_comm]

end HoldsRoundings

end BinaryFormat

namespace Binary

variable {F : BinaryFormat} {x y : Binary F} {c d m n greatest : Nat}

/-- The number is a natural number, up to so many roundings. -/
def IsNear (x : Binary F) (roundings n : Nat) : Prop :=
  ∃ m h, x = .finite false m h ∧ F.Near roundings (n * F.one) m

theorem IsInt.isNear (hx : x.IsInt n) : x.IsNear 0 n := by
  obtain ⟨h, rfl⟩ := isInt_natCast_iff.mp hx
  exact ⟨_, h, rfl, .refl 0 _⟩

theorem IsNear.mono (hx : x.IsNear c n) (hcd : c ≤ d) : x.IsNear d n := by
  obtain ⟨m, h, rfl, hnear⟩ := hx
  exact ⟨m, h, rfl, hnear.mono hcd⟩

theorem isNear_round {e : Nat} (he : F.Near c (n * F.one) (F.nearest m e))
    (hF : F.HoldsRoundings greatest) (hc : c ≤ greatest)
    (hlimit : 11 * (n * F.one) < 10 * F.limit) : (round false m e : Binary F).IsNear c n := by
  have hfinite := hF.near_lt_limit he hc hlimit
  refine ⟨_, ⟨F.nearest_onGrid m e, hfinite⟩, ?_, he⟩
  rw [round, dif_pos hfinite]

section Roundings

variable (hF : F.HoldsRoundings greatest)
include hF

/-- A product has one rounding more than its factors together. -/
theorem IsNear.mul (hx : x.IsNear c m) (hy : y.IsNear d n) (hm : 0 < m) (hn : 0 < n)
    (hc : c + d + 1 ≤ greatest) (hlimit : 11 * (m * n * F.one) < 10 * F.limit) :
    (x * y).IsNear (c + d + 1) (m * n) := by
  obtain ⟨a, _, rfl, ha⟩ := hx
  obtain ⟨b, _, rfl, hb⟩ := hy
  have hnear := ha.mul hb
  rw [show m * F.one * (n * F.one) = m * n * F.one * F.one by ac_rfl] at hnear
  have hlarge := hF.le_mul_div (hF.one_le_near ha hm (by omega)) (hF.one_le_near hb hn (by omega))
  exact isNear_round (hnear.nearest F.one_pos hlarge) hF hc hlimit

/-- A sum has one rounding more than its terms each. -/
theorem IsNear.add (hx : x.IsNear c m) (hy : y.IsNear c n) (hm : 0 < m) (hc : c + 1 ≤ greatest)
    (hlimit : 11 * ((m + n) * F.one) < 10 * F.limit) : (x + y).IsNear (c + 1) (m + n) := by
  obtain ⟨a, hafits, rfl, ha⟩ := hx
  obtain ⟨b, hbfits, rfl, hb⟩ := hy
  have hnear := ha.add hb
  rw [← Nat.add_mul, ← Nat.mul_one ((m + n) * F.one)] at hnear
  have hlarge : Nat.pow 2 F.fractionBits ≤ (a + b) / 1 := by
    have hone := hF.one_le_near ha hm (by omega)
    have hnormal := hF.normal
    rw [Nat.div_one]
    omega
  rw [finite_add_finite hafits hbfits]
  exact isNear_round (hnear.nearest Nat.one_pos hlarge) hF hc hlimit

end Roundings

end Binary

end PageScript
