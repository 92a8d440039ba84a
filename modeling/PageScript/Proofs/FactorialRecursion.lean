import PageScript.Number.Elementary
import PageScript.Proofs.Rounding

/-!
# The factorial as a recursion

The factorial of a number above one is the number times the factorial of the number less one. In
floating point the recursion subtracts one again and again, where the product of the factors
subtracts whole numbers from the number once. Up to `2 ^ 53` neither kind of subtraction rounds, so
both go through the same factors.

Main statement: up to 171 the product is the result of the recursion, and from there on up to
`2 ^ 53` the recursion is infinite.
-/

namespace PageScript

open BinaryFormat (binary64 holdsWhole_binary64)

theorem factorialExact_succ (n : Nat) : factorialExact (n + 1) = factorialExact n * (n + 1) := by
  cases n with
  | zero => rfl
  | succ n =>
    rw [factorialExact, factorialExact, Nat.add_sub_cancel, Nat.add_sub_cancel, List.range'_concat,
      List.foldl_append]
    simp only [List.foldl_cons, List.foldl_nil]
    congr 1
    omega

namespace BinaryFormat

variable {F : BinaryFormat}

theorem Fits.sub_whole (hF : F.HoldsWhole) {m k : Nat} (hm : F.Fits m)
    (hmax : m ≤ Nat.pow 2 F.precision * F.one) : F.Fits (m - k * F.one) := by
  by_cases hlt : m < Nat.pow 2 F.precision * F.one
  · exact hm.sub (Nat.dvd_mul_left_of_dvd (spacing_dvd_one hlt) k)
  · have heq : m = Nat.pow 2 F.precision * F.one := Nat.le_antisymm hmax (Nat.not_lt.mp hlt)
    rw [heq, ← Nat.sub_mul]
    exact fits_whole hF (Nat.sub_le _ _)

/-- The factorials rounded at each step, as if the format had no greatest number. -/
def roundedFactorial (F : BinaryFormat) : Nat → Nat
  | 0 => F.one
  | n + 1 => F.nearest ((n + 1) * F.one * F.roundedFactorial n) F.one

theorem roundedFactorial_zero : F.roundedFactorial 0 = F.one := rfl

theorem roundedFactorial_succ (n : Nat) :
    F.roundedFactorial (n + 1) = F.nearest ((n + 1) * F.one * F.roundedFactorial n) F.one := rfl

theorem roundedFactorial_onGrid (n : Nat) : F.OnGrid (F.roundedFactorial n) := by
  cases n with
  | zero => exact F.onGrid_two_pow _
  | succ n => exact F.nearest_onGrid _ _

theorem roundedFactorial_le_succ (n : Nat) : F.roundedFactorial n ≤ F.roundedFactorial (n + 1) := by
  have hself := F.nearest_mul (roundedFactorial_onGrid n) F.one_pos
  calc F.roundedFactorial n = F.nearest (F.roundedFactorial n * F.one) F.one := hself.symm
    _ ≤ F.nearest ((n + 1) * F.one * F.roundedFactorial n) F.one := by
      refine F.nearest_mono ?_ _
      rw [Nat.mul_comm (F.roundedFactorial n)]
      exact Nat.mul_le_mul_right _ (Nat.le_mul_of_pos_left _ n.succ_pos)

theorem one_le_roundedFactorial (n : Nat) : F.one ≤ F.roundedFactorial n := by
  induction n with
  | zero => exact Nat.le_refl _
  | succ n ih => exact Nat.le_trans ih (roundedFactorial_le_succ n)

/-- Each of the roundings takes away a small part of the exact factorial at most. -/
theorem factorialExact_le_roundedFactorial (n : Nat) :
    Nat.pow (Nat.pow 2 F.precision) n * (factorialExact n * F.one) ≤
      Nat.pow (Nat.pow 2 F.precision + 1) n * F.roundedFactorial n := by
  induction n with
  | zero => exact Nat.le_of_eq (congrArg (1 * ·) (Nat.one_mul F.one))
  | succ n ih =>
    have hone := one_le_roundedFactorial (F := F) n
    have hnormal : Nat.pow 2 F.fractionBits ≤ (n + 1) * F.one * F.roundedFactorial n / F.one := by
      have hunit : Nat.pow 2 F.fractionBits ≤ F.one :=
        Nat.pow_le_pow_right (by decide) (Nat.le_add_left _ _)
      rw [Nat.mul_right_comm, Nat.mul_div_cancel _ F.one_pos]
      exact Nat.le_trans (Nat.le_trans hunit hone) (Nat.le_mul_of_pos_left _ n.succ_pos)
    have hstep := (F.nearest_relative F.one_pos hnormal).1
    rw [← roundedFactorial_succ] at hstep
    have hstep' : Nat.pow 2 F.precision * ((n + 1) * F.roundedFactorial n) ≤
        (Nat.pow 2 F.precision + 1) * F.roundedFactorial (n + 1) := by
      refine Nat.le_of_mul_le_mul_left ?_ F.one_pos
      calc F.one * (Nat.pow 2 F.precision * ((n + 1) * F.roundedFactorial n))
          = Nat.pow 2 F.precision * ((n + 1) * F.one * F.roundedFactorial n) := by ac_rfl
        _ ≤ (Nat.pow 2 F.precision + 1) * (F.one * F.roundedFactorial (n + 1)) := hstep
        _ = F.one * ((Nat.pow 2 F.precision + 1) * F.roundedFactorial (n + 1)) := by ac_rfl
    generalize Nat.pow 2 F.precision = u at ih hstep' ⊢
    calc Nat.pow u (n + 1) * (factorialExact (n + 1) * F.one)
        = u * (n + 1) * (Nat.pow u n * (factorialExact n * F.one)) := by
          rw [factorialExact_succ, Nat.pow_eq, Nat.pow_eq, Nat.pow_succ]
          ac_rfl
      _ ≤ u * (n + 1) * (Nat.pow (u + 1) n * F.roundedFactorial n) := Nat.mul_le_mul_left _ ih
      _ = Nat.pow (u + 1) n * (u * ((n + 1) * F.roundedFactorial n)) := by ac_rfl
      _ ≤ Nat.pow (u + 1) n * ((u + 1) * F.roundedFactorial (n + 1)) := Nat.mul_le_mul_left _ hstep'
      _ = Nat.pow (u + 1) (n + 1) * F.roundedFactorial (n + 1) := by
          rw [Nat.pow_eq, Nat.pow_eq, Nat.pow_succ]
          ac_rfl

theorem le_roundedFactorial {n units : Nat}
    (hexact : Nat.pow (Nat.pow 2 F.precision + 1) n * units ≤
      Nat.pow (Nat.pow 2 F.precision) n * (factorialExact n * F.one)) :
    units ≤ F.roundedFactorial n :=
  Nat.le_of_mul_le_mul_left (Nat.le_trans hexact (factorialExact_le_roundedFactorial n))
    (Nat.pow_pos (Nat.succ_pos _))

theorem limit_le_roundedFactorial {n : Nat} (hn : 171 ≤ n) :
    binary64.limit ≤ binary64.roundedFactorial n := by
  induction hn with
  | refl => exact le_roundedFactorial (by decide +kernel)
  | step _ ih => exact Nat.le_trans ih (roundedFactorial_le_succ _)

end BinaryFormat

namespace Binary

variable {F : BinaryFormat}

/-- A number without a minus sign and of at least so many units, be it infinite. -/
inductive AtLeast (units : Nat) : Binary F → Prop where
  | infinite : AtLeast units (.infinite false)
  | finite {m : Nat} (h : F.Fits m) (hle : units ≤ m) : AtLeast units (.finite false m h)

theorem AtLeast.eq_infinite {x : Binary F} {units : Nat} (hx : x.AtLeast units)
    (hlimit : F.limit ≤ units) : x = .infinite false := by
  cases hx with
  | infinite => rfl
  | finite h hle => exact absurd h.2 (by omega)

/-- Rounding keeps the order, so the lower bound of a product is rounded as the product is. -/
theorem AtLeast.mul {x : Binary F} {units n k : Nat} (hx : x.AtLeast units) (hn : F.Fits n)
    (hk : k ≤ n) (hpos : 0 < n) :
    (Binary.finite false n hn * x).AtLeast (F.nearest (k * units) F.one) := by
  cases hx with
  | infinite =>
    change AtLeast _ (if n = 0 then quiet else .infinite (false ^^ false))
    rw [if_neg (by omega)]
    exact .infinite
  | @finite m h hle =>
    have hmono := F.nearest_mono (Nat.mul_le_mul hk hle) F.one
    change AtLeast _ (round false (n * m) F.one)
    unfold round
    dsimp only
    split
    · exact .finite _ hmono
    · exact .infinite

/-- Whole numbers are subtracted without rounding, as long as the difference is not negative. -/
theorem finite_sub_ofNat (hF : F.HoldsWhole) {m k : Nat} (h : F.Fits m)
    (hmax : m ≤ Nat.pow 2 F.precision * F.one) (hk : k * F.one ≤ m) :
    Binary.finite false m h - .ofNat k = .finite false (m - k * F.one) (h.sub_whole hF hmax) := by
  have hwhole : k ≤ Nat.pow 2 F.precision :=
    Nat.le_of_mul_le_mul_right (Nat.le_trans hk hmax) F.one_pos
  obtain ⟨hfits, heq⟩ := isInt_natCast_iff.mp (ofNat_isInt hF hwhole)
  have hdifference : signed false m + signed true (k * F.one) = ((m - k * F.one : Nat) : Int) := by
    change (m : Int) + -((k * F.one : Nat) : Int) = _
    omega
  rw [heq]
  change (if signed false m + signed true (k * F.one) = 0 then zero (false && true)
    else ofUnits (signed false m + signed true (k * F.one))) = _
  rw [hdifference]
  by_cases hzero : m - k * F.one = 0
  · simp only [hzero]
    rfl
  · have hround := round_mul false (h.sub_whole hF hmax (k := k)) Nat.one_pos
    rw [Nat.mul_one] at hround
    rw [if_neg (by omega), ofUnits, Int.natAbs_natCast, decide_eq_false (by omega), hround]

theorem finite_sub_one (hF : F.HoldsWhole) {m : Nat} (h : F.Fits m)
    (hmax : m ≤ Nat.pow 2 F.precision * F.one) (hone : F.one ≤ m) :
    ∃ h', Binary.finite false m h - .ofNat 1 = .finite false (m - F.one) h' := by
  have hsub := finite_sub_ofNat hF h hmax (k := 1) (by rwa [Nat.one_mul])
  simp only [Nat.one_mul] at hsub
  exact ⟨_, hsub⟩

/-- The least whole number that is not below a number less one. -/
theorem ceilNat_sub_one (hF : F.HoldsWhole) {m : Nat} (h : F.Fits m)
    (hmax : m ≤ Nat.pow 2 F.precision * F.one) (hone : F.one < m) :
    (Binary.finite false m h - .ofNat 1).ceilNat = (m - 1) / F.one := by
  obtain ⟨_, hsub⟩ := finite_sub_one hF h hmax (Nat.le_of_lt hone)
  rw [hsub]
  change (-(-((m - F.one : Nat) : Int) / (F.one : Int))).toNat = _
  have hdiv := Nat.div_add_mod (m - 1) F.one
  have hmod := Nat.mod_lt (m - 1) F.one_pos
  generalize (m - 1) / F.one = q at hdiv ⊢
  have hproduct : (F.one : Int) * -(q : Int) = -((F.one * q : Nat) : Int) := by
    rw [Int.mul_neg, Int.natCast_mul]
  have hunique := Int.ediv_emod_unique (a := -((m - F.one : Nat) : Int)) (b := F.one)
    (q := -(q : Int)) (r := ((F.one * q : Nat) : Int) - (m - F.one : Nat)) (by omega)
  have hquotient := (hunique.mpr (by rw [hproduct]; omega)).1
  rw [hquotient, Int.neg_neg, Int.toNat_natCast]

theorem isNaN_of_rank? {x : Binary F} {place : Int} (hplace : x.rank? = some place) :
    x.isNaN = false := by
  cases x with
  | nan => cases hplace
  | infinite => rfl
  | finite => rfl

section Order

variable (hF : F.HoldsWhole) {n : Nat} (hn : n ≤ Nat.pow 2 F.precision) {x : Binary F}
include hF hn

theorem rank?_ofNat : (ofNat n : Binary F).rank? = some ((n * F.one : Nat) : Int) := by
  obtain ⟨_, heq⟩ := isInt_natCast_iff.mp (ofNat_isInt hF hn)
  rw [heq]
  rfl

theorem atMost_ofNat_iff :
    x.atMost (.ofNat n) = true ↔ ∃ place, x.rank? = some place ∧ place ≤ (n * F.one : Nat) := by
  rw [atMost, rank?_ofNat hF hn]
  cases x.rank? <;> simp

theorem ofNat_less_iff :
    (ofNat n : Binary F).less x = true ↔
      ∃ place, x.rank? = some place ∧ ((n * F.one : Nat) : Int) < place := by
  rw [less, rank?_ofNat hF hn]
  cases x.rank? <;> simp

theorem ofNat_less_of_atMost (hx : x.atMost (.ofNat n) = true) :
    (ofNat n : Binary F).less x = false := by
  obtain ⟨place, hplace, hle⟩ := (atMost_ofNat_iff hF hn).mp hx
  rw [Bool.eq_false_iff, ne_eq, ofNat_less_iff hF hn]
  rintro ⟨place', hplace', hlt⟩
  obtain rfl := Option.some.inj (hplace.symm.trans hplace')
  omega

omit hn in
theorem finite_atMost_one {m : Nat} (h : F.Fits m) :
    (Binary.finite false m h).atMost (.ofNat 1) = decide (m ≤ F.one) := by
  rw [atMost, rank?_ofNat hF Nat.one_le_two_pow, Nat.one_mul]
  exact decide_eq_decide.mpr Int.ofNat_le

/-- A number above one and up to two to the power of the precision has a magnitude between them. -/
theorem one_lt_magnitude (hx : x.atMost (.ofNat n) = true) (hone : x.atMost (.ofNat 1) = false) :
    ∃ m h, x = .finite false m h ∧ F.one < m ∧ m ≤ n * F.one := by
  have hlimit : n * F.one < F.limit := Nat.lt_of_le_of_lt (Nat.mul_le_mul_right _ hn) hF
  obtain ⟨place, hplace, hle⟩ := (atMost_ofNat_iff hF hn).mp hx
  have hlt : (F.one : Int) < place := by
    rw [Bool.eq_false_iff, ne_eq, atMost_ofNat_iff hF Nat.one_le_two_pow] at hone
    refine Int.not_le.mp fun h => hone ⟨place, hplace, ?_⟩
    rwa [Nat.one_mul]
  cases x with
  | nan => cases hplace
  | infinite s =>
    obtain rfl := Option.some.inj hplace
    cases s with
    | true =>
      change (F.one : Int) < -(F.limit : Int) at hlt
      omega
    | false =>
      change (F.limit : Int) ≤ _ at hle
      omega
  | finite s m h =>
    obtain rfl := Option.some.inj hplace
    cases s with
    | true =>
      change (F.one : Int) < -(m : Int) at hlt
      omega
    | false => exact ⟨m, h, rfl, Int.ofNat_lt.mp hlt, Int.ofNat_le.mp hle⟩

end Order

end Binary

open Binary

/--
The recursion of the factorial, evaluated in floating point, with the factors that it goes through:
one for every number that is at most one, else the number times the factorial of the number less
one. A number that is none has no result.
-/
inductive FactorialRecursion : Binary64 → List Binary64 → Binary64 → Prop where
  | last {x : Binary64} (h : x.atMost (.ofNat 1) = true) : FactorialRecursion x [] (.ofNat 1)
  | factor {x product : Binary64} {factors : List Binary64} (h : x.atMost (.ofNat 1) = false)
      (rest : FactorialRecursion (x - .ofNat 1) factors product) :
      FactorialRecursion x (x :: factors) (x * product)

theorem FactorialRecursion.unique {x r r' : Binary64} {fs fs' : List Binary64}
    (h : FactorialRecursion x fs r) (h' : FactorialRecursion x fs' r') : fs = fs' ∧ r = r' := by
  induction h generalizing fs' r' with
  | last hone =>
    cases h' with
    | last => exact ⟨rfl, rfl⟩
    | factor hone' => rw [hone] at hone'; cases hone'
  | factor hone _ ih =>
    cases h' with
    | last hone' => rw [hone] at hone'; cases hone'
    | factor _ rest' =>
      obtain ⟨rfl, rfl⟩ := ih rest'
      exact ⟨rfl, rfl⟩

/-- The number less each whole number below the count of its factors. -/
def factors (x : Binary64) : List Binary64 :=
  (List.range (factorCount x)).map fun i => x - .ofNat i

/-- The product of factors from the last one on. -/
def productOf (fs : List Binary64) : Binary64 := fs.foldr (· * ·) (.ofNat 1)

theorem productOf_nil : productOf [] = .ofNat 1 := by
  rw [productOf, List.foldr_nil]

theorem productOf_cons (x : Binary64) (fs : List Binary64) :
    productOf (x :: fs) = x * productOf fs := by
  rw [productOf, List.foldr_cons, productOf]

theorem factorial_eq_productOf {x : Binary64} (hx : x.atMost (.ofNat 171) = true) :
    factorial x = productOf (factors x) := by
  obtain ⟨place, hplace, -⟩ := (atMost_ofNat_iff holdsWhole_binary64 (by decide)).mp hx
  have hbound := ofNat_less_of_atMost holdsWhole_binary64 (by decide) hx
  rw [factorial, isNaN_of_rank? hplace, hbound, productOf, factors, List.foldr_map]
  rfl

theorem factorial_eq_infinite {x : Binary64} (hx : (Binary.ofNat 171).less x = true) :
    factorial x = .infinite false := by
  obtain ⟨place, hplace, -⟩ := (ofNat_less_iff holdsWhole_binary64 (by decide)).mp hx
  rw [factorial, isNaN_of_rank? hplace, hx]
  rfl

theorem factors_of_atMost_one {x : Binary64} (hx : x.atMost (.ofNat 1) = true) : factors x = [] := by
  rw [factors, factorCount, ofNat_less_of_atMost holdsWhole_binary64 (by decide) hx]
  rfl

section Finite

variable {m : Nat} (h : binary64.Fits m)
  (hmax : m ≤ Nat.pow 2 binary64.precision * binary64.one)
include hmax

/-- How many whole numbers there are to subtract before the difference is at most one. -/
theorem factorCount_finite : factorCount (.finite false m h) = (m - 1) / binary64.one := by
  by_cases hone : binary64.one < m
  · have hless : (Binary.ofNat 1).less (.finite false m h) = true := by
      refine (ofNat_less_iff holdsWhole_binary64 (by decide)).mpr ⟨m, rfl, ?_⟩
      rw [Nat.one_mul]
      exact Int.ofNat_lt.mpr hone
    rw [factorCount, hless, if_pos rfl, ceilNat_sub_one holdsWhole_binary64 h hmax hone]
  · have hle : (Binary.finite false m h).atMost (.ofNat 1) = true := by
      rw [finite_atMost_one holdsWhole_binary64]
      exact decide_eq_true (Nat.not_lt.mp hone)
    have hzero : (m - 1) / binary64.one = 0 := by
      have hpos := binary64.one_pos
      exact Nat.div_eq_of_lt (by omega)
    rw [factorCount, ofNat_less_of_atMost holdsWhole_binary64 (by decide) hle, hzero]
    rfl

/-- Less so many whole numbers as there are factors, the number is still above one. -/
theorem mul_one_lt_of_lt_factorCount {i : Nat} (hi : i < factorCount (.finite false m h)) :
    (i + 1) * binary64.one < m := by
  rw [factorCount_finite h hmax, Nat.lt_iff_add_one_le, Nat.le_div_iff_mul_le binary64.one_pos] at hi
  have hpos : 0 < (i + 1) * binary64.one := Nat.mul_pos i.succ_pos binary64.one_pos
  omega

theorem sub_of_lt_factorCount {i : Nat} (hi : i < factorCount (.finite false m h)) :
    ∃ h', Binary.finite false m h - .ofNat i = .finite false (m - i * binary64.one) h' := by
  have hlt := mul_one_lt_of_lt_factorCount h hmax hi
  rw [Nat.succ_mul] at hlt
  exact ⟨_, finite_sub_ofNat holdsWhole_binary64 h hmax (by omega)⟩

end Finite

theorem sub_one_div {m units : Nat} (hpos : 0 < units) (hlt : units < m) :
    (m - 1) / units = (m - units - 1) / units + 1 := by
  rw [← Nat.add_div_right _ hpos]
  congr 1
  omega

theorem finite_congr {F : BinaryFormat} {negative : Bool} {m n : Nat} (heq : m = n) (hm : F.Fits m)
    (hn : F.Fits n) : Binary.finite negative m hm = .finite negative n hn := by
  subst heq
  rfl

/-- Above one, the first factor is the number, and the others are those of the number less one. -/
theorem factors_finite {m : Nat} (h : binary64.Fits m)
    (hmax : m ≤ Nat.pow 2 binary64.precision * binary64.one) (hone : binary64.one < m) :
    ∃ h', Binary.finite false m h - .ofNat 1 = .finite false (m - binary64.one) h' ∧
      factorCount (.finite false m h) = factorCount (.finite false (m - binary64.one) h') + 1 ∧
      factors (.finite false m h) =
        .finite false m h :: factors (.finite false (m - binary64.one) h') := by
  obtain ⟨h', hsub⟩ := finite_sub_one holdsWhole_binary64 h hmax (Nat.le_of_lt hone)
  have hmax' : m - binary64.one ≤ Nat.pow 2 binary64.precision * binary64.one :=
    Nat.le_trans (Nat.sub_le _ _) hmax
  have hcount : factorCount (.finite false m h) =
      factorCount (.finite false (m - binary64.one) h') + 1 := by
    rw [factorCount_finite h hmax, factorCount_finite h' hmax', sub_one_div binary64.one_pos hone]
  refine ⟨h', hsub, hcount, ?_⟩
  rw [factors, hcount, List.range_succ_eq_map, List.map_cons, List.map_map, factors,
    List.cons_eq_cons]
  refine ⟨?_, List.map_congr_left fun i hi => ?_⟩
  · obtain ⟨_, hzero⟩ := sub_of_lt_factorCount h hmax (i := 0) (by omega)
    rw [hzero]
    exact finite_congr (by rw [Nat.zero_mul, Nat.sub_zero]) _ _
  · obtain ⟨_, hleft⟩ := sub_of_lt_factorCount h hmax (i := i + 1) (by
      have := List.mem_range.mp hi
      omega)
    obtain ⟨_, hright⟩ := sub_of_lt_factorCount h' hmax' (List.mem_range.mp hi)
    rw [Function.comp_apply, hleft, hright]
    exact finite_congr (by rw [Nat.succ_mul, Nat.sub_sub, Nat.add_comm]) _ _

/--
Up to `2 ^ 53` the recursion goes through the factors and gives their product, which is at least the
rounded factorial of their number.
-/
theorem recursion_finite {count m : Nat} (h : binary64.Fits m)
    (hmax : m ≤ Nat.pow 2 binary64.precision * binary64.one)
    (hcount : factorCount (.finite false m h) = count) :
    FactorialRecursion (.finite false m h) (factors (.finite false m h))
        (productOf (factors (.finite false m h))) ∧
      (productOf (factors (.finite false m h))).AtLeast (binary64.roundedFactorial count) := by
  induction count generalizing m with
  | zero =>
    have hnone : factors (.finite false m h) = [] := by
      rw [factors, hcount]
      rfl
    rw [factorCount_finite h hmax, Nat.div_eq_zero_iff] at hcount
    have hpos := binary64.one_pos
    have hle : (Binary.finite false m h).atMost (.ofNat 1) = true := by
      rw [finite_atMost_one holdsWhole_binary64]
      exact decide_eq_true (by omega)
    obtain ⟨hfits, hunit⟩ := isInt_natCast_iff.mp (ofNat_isInt holdsWhole_binary64 Nat.one_le_two_pow)
    rw [hnone, productOf_nil, BinaryFormat.roundedFactorial_zero]
    refine ⟨.last hle, ?_⟩
    rw [hunit]
    exact .finite hfits (Nat.le_of_eq (Nat.one_mul _).symm)
  | succ count ih =>
    have hlast : (count + 1) * binary64.one < m :=
      mul_one_lt_of_lt_factorCount h hmax (by omega)
    have hone : binary64.one < m :=
      Nat.lt_of_le_of_lt (Nat.le_mul_of_pos_left _ count.succ_pos) hlast
    have hgt : (Binary.finite false m h).atMost (.ofNat 1) = false := by
      rw [finite_atMost_one holdsWhole_binary64]
      exact decide_eq_false (Nat.not_le.mpr hone)
    obtain ⟨h', hsub, hfewer, hfactors⟩ := factors_finite h hmax hone
    obtain ⟨hrest, hbound⟩ := ih h' (Nat.le_trans (Nat.sub_le _ _) hmax) (by omega)
    rw [hfactors, productOf_cons, BinaryFormat.roundedFactorial_succ]
    refine ⟨.factor hgt ?_, hbound.mul h (Nat.le_of_lt hlast) (by omega)⟩
    rw [hsub]
    exact hrest

theorem one_lt_of_lt_factorCount {x : Binary64} {i : Nat} (hi : i < factorCount x) :
    x.atMost (.ofNat 1) = false := by
  refine Bool.eq_false_iff.mpr fun hone => ?_
  have hnone := factors_of_atMost_one hone
  rw [factors, List.map_eq_nil_iff, List.range_eq_nil] at hnone
  omega

section UpToPrecision

variable {x : Binary64} (hx : x.atMost (.ofNat (Nat.pow 2 binary64.precision)) = true)
include hx

theorem rank?_factor {i : Nat} (hi : i < factorCount x) :
    (x - .ofNat i).rank? = x.rank?.map (· - ((i * binary64.one : Nat) : Int)) := by
  obtain ⟨m, h, rfl, -, hmax⟩ :=
    one_lt_magnitude holdsWhole_binary64 (Nat.le_refl _) hx (one_lt_of_lt_factorCount hi)
  obtain ⟨_, hsub⟩ := sub_of_lt_factorCount h hmax hi
  have hlt := mul_one_lt_of_lt_factorCount h hmax hi
  rw [Nat.succ_mul] at hlt
  rw [hsub]
  change some ((m - i * binary64.one : Nat) : Int) = some ((m : Int) - (i * binary64.one : Nat))
  rw [Int.ofNat_sub (by omega)]

theorem recursion_of_atMost : FactorialRecursion x (factors x) (productOf (factors x)) := by
  by_cases hone : x.atMost (.ofNat 1) = true
  · rw [factors_of_atMost_one hone, productOf_nil]
    exact .last hone
  · obtain ⟨m, h, rfl, -, hmax⟩ :=
      one_lt_magnitude holdsWhole_binary64 (Nat.le_refl _) hx (Bool.eq_false_iff.mpr hone)
    exact (recursion_finite h hmax rfl).1

theorem productOf_factors_eq_infinite (hlarge : (Binary.ofNat 171).less x = true) :
    productOf (factors x) = .infinite false := by
  obtain ⟨place, hplace, hlt⟩ := (ofNat_less_iff holdsWhole_binary64 (by decide)).mp hlarge
  have hone : x.atMost (.ofNat 1) = false := by
    refine Bool.eq_false_iff.mpr fun hle => ?_
    obtain ⟨place', hplace', hle'⟩ := (atMost_ofNat_iff holdsWhole_binary64 (by decide)).mp hle
    obtain rfl := Option.some.inj (hplace.symm.trans hplace')
    omega
  obtain ⟨m, h, rfl, -, hmax⟩ := one_lt_magnitude holdsWhole_binary64 (Nat.le_refl _) hx hone
  obtain rfl := Option.some.inj hplace
  have hcount : 171 ≤ factorCount (.finite false m h) := by
    rw [factorCount_finite h hmax, Nat.le_div_iff_mul_le binary64.one_pos]
    exact Nat.le_sub_one_of_lt (Int.ofNat_lt.mp hlt)
  exact (recursion_finite h hmax rfl).2.eq_infinite (BinaryFormat.limit_le_roundedFactorial hcount)

end UpToPrecision

/--
The factorial up to 171, of fractions, negative numbers and the negative infinity too, is the result
of the recursion. The recursion goes through exactly the factors of the product, none of which is
rounded. Beyond 171, up to `2 ^ 53`, the result of the recursion is infinite, as is the factorial.
-/
theorem factorial_eq_recursion (x : Binary64) :
    (x.atMost (.ofNat 171) = true →
      (∀ i < factorCount x,
        (x - .ofNat i).rank? = x.rank?.map (· - ((i * binary64.one : Nat) : Int))) ∧
      ∀ fs r, FactorialRecursion x fs r ↔
        fs = (List.range (factorCount x)).map (fun i => x - .ofNat i) ∧ r = factorial x) ∧
    ((Binary.ofNat 171).less x = true → x.atMost (.ofNat (Nat.pow 2 53)) = true →
      factorial x = .infinite false ∧ (∃ fs r, FactorialRecursion x fs r) ∧
      ∀ fs r, FactorialRecursion x fs r → r = .infinite false) := by
  constructor
  · intro hsmall
    have hx : x.atMost (.ofNat (Nat.pow 2 binary64.precision)) = true := by
      obtain ⟨place, hplace, hle⟩ := (atMost_ofNat_iff holdsWhole_binary64 (by decide)).mp hsmall
      refine (atMost_ofNat_iff holdsWhole_binary64 (Nat.le_refl _)).mpr ⟨place, hplace, ?_⟩
      exact Int.le_trans hle (Int.ofNat_le.mpr (Nat.mul_le_mul_right _ (by decide)))
    refine ⟨fun i hi => rank?_factor hx hi, fun fs r => ?_⟩
    rw [factorial_eq_productOf hsmall]
    change FactorialRecursion x fs r ↔ fs = factors x ∧ r = productOf (factors x)
    constructor
    · intro h
      exact h.unique (recursion_of_atMost hx)
    · intro ⟨hfactors, hproduct⟩
      rw [hfactors, hproduct]
      exact recursion_of_atMost hx
  · intro hlarge hx
    rw [show Nat.pow 2 53 = Nat.pow 2 binary64.precision from rfl] at hx
    have hrun := recursion_of_atMost hx
    rw [productOf_factors_eq_infinite hx hlarge] at hrun
    exact ⟨factorial_eq_infinite hlarge, ⟨_, _, hrun⟩, fun fs r h => (h.unique hrun).2⟩

/-- The least number above two, whose last factor is the least but one above one, and `2 ^ 53`. -/
theorem factorial_eq_recursion_limits :
    (∃ x : Binary64, x = .ofBits 0x4000000000000001 ∧ x.atMost (.ofNat 171) = true ∧
      factorCount x = 2 ∧ FactorialRecursion x [x - .ofNat 0, x - .ofNat 1] (factorial x)) ∧
    ∃ y : Binary64, y = .ofNat (Nat.pow 2 53) ∧ (Binary.ofNat 171).less y = true ∧
      y.atMost (.ofNat (Nat.pow 2 53)) = true ∧ factorial y = .infinite false ∧
      ∃ fs r, FactorialRecursion y fs r := by
  have hsmall : (Binary.ofBits 0x4000000000000001 : Binary64).atMost (.ofNat 171) = true := by
    decide +kernel
  have hcount : factorCount (.ofBits 0x4000000000000001) = 2 := by decide +kernel
  have hlarge : (Binary.ofNat 171 : Binary64).less (.ofNat (Nat.pow 2 53)) = true := by
    decide +kernel
  have hbound : (Binary.ofNat (Nat.pow 2 53) : Binary64).atMost (.ofNat (Nat.pow 2 53)) = true := by
    decide +kernel
  obtain ⟨-, hrun⟩ := (factorial_eq_recursion _).1 hsmall
  rw [hcount] at hrun
  obtain ⟨hinfinite, hexists, -⟩ := (factorial_eq_recursion _).2 hlarge hbound
  exact ⟨⟨_, rfl, hsmall, hcount, (hrun _ _).mpr ⟨rfl, rfl⟩⟩, _, rfl, hlarge, hbound, hinfinite, hexists⟩

end PageScript
