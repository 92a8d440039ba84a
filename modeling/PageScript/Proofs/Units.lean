import PageScript.Proofs.Rounding

/-!
# Numbers by their units

A finite number is a whole number of units, whatever the sign of a zero. If the exact result of an
operation is on the grid, the operation gives just this.
-/

namespace PageScript.Binary

variable {F : BinaryFormat} {x y : Binary F} {a b : Int}

/-- How many units a finite number is. -/
def units? : Binary F → Option Int
  | .finite s m _ => some (signed s m)
  | _ => none

theorem natAbs_signed (s : Bool) (m : Nat) : (signed s m).natAbs = m := by
  cases s <;> simp [signed]

theorem signed_mul (s t : Bool) (m n : Nat) :
    signed s m * signed t n = signed (s ^^ t) (m * n) := by
  have hproduct : ((m * n : Nat) : Int) = m * n := Int.natCast_mul m n
  cases s <;> cases t
  · exact hproduct.symm
  · show (m : Int) * -n = -((m * n : Nat) : Int)
    rw [hproduct, Int.mul_neg]
  · show -(m : Int) * n = -((m * n : Nat) : Int)
    rw [hproduct, Int.neg_mul]
  · show -(m : Int) * -n = ((m * n : Nat) : Int)
    rw [hproduct, Int.neg_mul_neg]

theorem signed_mul_right (s : Bool) (m n : Nat) : signed s (m * n) = signed s m * n := by
  have hmul := signed_mul s false m n
  rw [Bool.xor_false] at hmul
  exact hmul.symm

theorem signed_not (s : Bool) (m : Nat) : signed (!s) m = -signed s m := by
  cases s <;> simp [signed]

theorem units?_eq_some_iff :
    x.units? = some a ↔ ∃ s h, x = .finite s a.natAbs h ∧ signed s a.natAbs = a := by
  constructor
  · intro hx
    cases x with
    | nan => cases hx
    | infinite => cases hx
    | finite s m h =>
      obtain rfl := Option.some.inj hx
      rw [natAbs_signed]
      exact ⟨s, h, rfl, rfl⟩
  · rintro ⟨s, h, rfl, ha⟩
    exact congrArg some ha

theorem fits_of_units? (hx : x.units? = some a) : F.Fits a.natAbs := by
  obtain ⟨_, h, _⟩ := units?_eq_some_iff.mp hx
  exact h

theorem rank?_of_units? (hx : x.units? = some a) : x.rank? = some a := by
  obtain ⟨s, h, rfl, ha⟩ := units?_eq_some_iff.mp hx
  exact congrArg some ha

theorem atMost_iff_of_units? (hx : x.units? = some a) (hy : y.units? = some b) :
    x.atMost y = true ↔ a ≤ b := by
  simp [atMost, rank?_of_units? hx, rank?_of_units? hy]

theorem less_iff_of_units? (hx : x.units? = some a) (hy : y.units? = some b) :
    x.less y = true ↔ a < b := by
  simp [less, rank?_of_units? hx, rank?_of_units? hy]

theorem equal_iff_of_units? (hx : x.units? = some a) (hy : y.units? = some b) :
    x.equal y = true ↔ a = b := by
  simp [equal, rank?_of_units? hx, rank?_of_units? hy]

/-- All finite numbers are above one infinity and below the other. -/
theorem infinite_atMost_iff {s : Bool} (hy : y.units? = some b) :
    (Binary.infinite s : Binary F).atMost y = true ↔ s = true := by
  have hlimit := (fits_of_units? hy).2
  rw [atMost, rank?_of_units? hy]
  cases s <;> simp [rank?, signed] <;> omega

theorem atMost_infinite_iff {s : Bool} (hx : x.units? = some a) :
    x.atMost (.infinite s) = true ↔ s = false := by
  have hlimit := (fits_of_units? hx).2
  rw [atMost, rank?_of_units? hx]
  cases s <;> simp [rank?, signed] <;> omega

theorem IsInt.units? {k : Int} (hx : x.IsInt k) : x.units? = some (k * F.one) := by
  obtain ⟨_, rfl⟩ := hx
  exact congrArg some (signed_natAbs k F.one)

theorem eq_finite_of_whole {k : Int} (hx : x.units? = some (k * F.one)) :
    ∃ s h, x = .finite s (k.natAbs * F.one) h ∧ signed s k.natAbs = k := by
  obtain ⟨s, h, rfl, hsign⟩ := units?_eq_some_iff.mp hx
  have hone : (F.one : Int) ≠ 0 := Int.natCast_ne_zero.mpr (Nat.ne_of_gt F.one_pos)
  have habs : (k * (F.one : Int)).natAbs = k.natAbs * F.one := by
    rw [Int.natAbs_mul, Int.natAbs_natCast]
  rw [habs, signed_mul_right] at hsign
  exact ⟨s, habs ▸ h, by simp only [habs], Int.eq_of_mul_eq_mul_right hone hsign⟩

theorem units?_round (s : Bool) {m n d : Nat} (hm : F.Fits m) (hd : 0 < d) (hn : n = m * d) :
    (round s n d : Binary F).units? = some (signed s m) := by
  rw [hn, round_mul s hm hd]
  rfl

theorem units?_ofUnits (ha : F.Fits a.natAbs) : (ofUnits a : Binary F).units? = some a := by
  rw [ofUnits, units?_round _ ha Nat.one_pos (Nat.mul_one _).symm]
  have h := signed_natAbs a 1
  rw [Nat.mul_one] at h
  rw [h]
  exact congrArg some (Int.mul_one a)

theorem units?_neg (hx : x.units? = some a) : (-x).units? = some (-a) := by
  obtain ⟨s, h, rfl, ha⟩ := units?_eq_some_iff.mp hx
  change some (signed (!s) a.natAbs) = _
  rw [signed_not, ha]

/-- A sum is its exact value, rounded. -/
theorem add_eq_ofUnits (hx : x.units? = some a) (hy : y.units? = some b) (hsum : a + b ≠ 0) :
    x + y = ofUnits (a + b) := by
  obtain ⟨s, _, rfl, ha⟩ := units?_eq_some_iff.mp hx
  obtain ⟨t, _, rfl, hb⟩ := units?_eq_some_iff.mp hy
  change (if signed s a.natAbs + signed t b.natAbs = 0 then zero (s && t)
    else ofUnits (signed s a.natAbs + signed t b.natAbs)) = _
  rw [ha, hb, if_neg hsum]

theorem units?_add_of_cancel (hx : x.units? = some a) (hy : y.units? = some b) (hsum : a + b = 0) :
    (x + y).units? = some 0 := by
  obtain ⟨s, _, rfl, ha⟩ := units?_eq_some_iff.mp hx
  obtain ⟨t, _, rfl, hb⟩ := units?_eq_some_iff.mp hy
  change (if signed s a.natAbs + signed t b.natAbs = 0 then zero (s && t)
    else ofUnits (signed s a.natAbs + signed t b.natAbs)).units? = _
  rw [ha, hb, if_pos hsum]
  cases s <;> cases t <;> rfl

theorem units?_add (hx : x.units? = some a) (hy : y.units? = some b) (h : F.Fits (a + b).natAbs) :
    (x + y).units? = some (a + b) := by
  by_cases hsum : a + b = 0
  · rw [units?_add_of_cancel hx hy hsum, hsum]
  · rw [add_eq_ofUnits hx hy hsum]
    exact units?_ofUnits h

theorem units?_sub (hx : x.units? = some a) (hy : y.units? = some b) (h : F.Fits (a - b).natAbs) :
    (x - y).units? = some (a - b) := by
  rw [Int.sub_eq_add_neg] at h ⊢
  exact units?_add hx (units?_neg hy) h

theorem finite_add_finite {m n : Nat} (hm : F.Fits m) (hn : F.Fits n) :
    Binary.finite false m hm + .finite false n hn = round false (m + n) 1 := by
  by_cases hsum : m + n = 0
  · obtain ⟨rfl, rfl⟩ : m = 0 ∧ n = 0 := by omega
    have hround := round_mul (F := F) false F.fits_zero Nat.one_pos
    rw [Nat.zero_mul] at hround
    exact hround.symm
  · rw [add_eq_ofUnits (x := .finite false m hm) (y := .finite false n hn) (a := m) (b := n) rfl rfl
      (by omega), ofUnits, ← Int.natCast_add, Int.natAbs_natCast,
      decide_eq_false (Int.not_lt.mpr (Int.natCast_nonneg _))]

theorem finite_mul_finite (s t : Bool) {m n : Nat} (hm : F.Fits m) (hn : F.Fits n) :
    Binary.finite s m hm * .finite t n hn = round (s ^^ t) (m * n) F.one := rfl

theorem units?_mul {c : Int} (hx : x.units? = some a) (hy : y.units? = some b)
    (hc : a * b = c * F.one) (h : F.Fits c.natAbs) : (x * y).units? = some c := by
  obtain ⟨s, _, rfl, ha⟩ := units?_eq_some_iff.mp hx
  obtain ⟨t, _, rfl, hb⟩ := units?_eq_some_iff.mp hy
  have hproduct : a.natAbs * b.natAbs = c.natAbs * F.one := by
    rw [← Int.natAbs_mul, hc, Int.natAbs_mul, Int.natAbs_natCast]
  have hone : (F.one : Int) ≠ 0 := Int.natCast_ne_zero.mpr (Nat.ne_of_gt F.one_pos)
  have hsign : signed (s ^^ t) c.natAbs = c := by
    apply Int.eq_of_mul_eq_mul_right hone
    rw [← signed_mul_right, ← hproduct, ← signed_mul, ha, hb, hc]
  rw [finite_mul_finite, units?_round _ h F.one_pos hproduct, hsign]

/-- A quotient that need not be on the grid, by a positive number. -/
theorem units?_div_finite {s : Bool} {m n : Nat} (hm : F.Fits m) (hn : F.Fits n) (hpos : 0 < n)
    (hlimit : F.nearest (m * F.one) n < F.limit) :
    (Binary.finite s m hm / .finite false n hn).units? =
      some (signed s (F.nearest (m * F.one) n)) := by
  change (if n = 0 then if m = 0 then quiet else .infinite (s ^^ false)
    else round (s ^^ false) (m * F.one) n : Binary F).units? = _
  rw [if_neg (Nat.ne_of_gt hpos), Bool.xor_false, round, dif_pos hlimit]
  rfl

end PageScript.Binary
