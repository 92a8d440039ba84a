import Mathlib.Data.Nat.Prime.Basic
import PageScript.Proofs.Divisors

/-!
# Prime factors

The scan for prime factors never tests whether a candidate is prime. It has found all prime
divisors below the candidate, and a divisor that is not prime has one of those as a divisor of its
own. The scan goes up to below the number only, so it stays within any type that holds the number.

Main statement: the scan ends within the type, and what it gives are the prime divisors that are
less than the number, each once and ascending.
-/

namespace PageScript.IntType

theorem two_le_of_prime {p : Int} (hp : p.toNat.Prime) : 2 ≤ p := by
  have h := hp.two_le
  omega

/-- A number that is not prime has a smaller prime divisor. -/
theorem exists_prime_lt {i : Int} (hi : 2 ≤ i) (hnot : ¬ i.toNat.Prime) :
    ∃ p : Int, p.toNat.Prime ∧ p < i ∧ p ∣ i := by
  have hnat : (i.toNat : Int) = i := Int.toNat_of_nonneg (by omega)
  have hlt : i.toNat.minFac < i.toNat := (Nat.not_prime_iff_minFac_lt (by omega)).mp hnot
  have hdvd : (i.toNat.minFac : Int) ∣ i.toNat := Int.natCast_dvd_natCast.mpr i.toNat.minFac_dvd
  refine ⟨i.toNat.minFac, ?_, by omega, hnat ▸ hdvd⟩
  rw [Int.toNat_natCast]
  exact Nat.minFac_prime (by omega)

theorem eq_of_prime_dvd_prime {p q : Int} (hp : p.toNat.Prime) (hq : q.toNat.Prime)
    (hdvd : p ∣ q) : p = q := by
  have hp2 := two_le_of_prime hp
  have hq2 := two_le_of_prime hq
  have hnat : p.toNat ∣ q.toNat := by
    rw [← Int.natCast_dvd_natCast, Int.toNat_of_nonneg (by omega), Int.toNat_of_nonneg (by omega)]
    exact hdvd
  have heq : p.toNat = q.toNat := (Nat.prime_dvd_prime_iff_eq hp hq).mp hnat
  omega

/-- The prime divisors of `n` below the candidate `i`, greatest first. -/
structure PrimesBelow (n i : Int) (found : List Int) : Prop where
  descending : found.Pairwise (· > ·)
  mem_iff : ∀ p, p ∈ found ↔ p.toNat.Prime ∧ p < i ∧ p ∣ n

namespace PrimesBelow

variable {n i : Int} {found : List Int}

theorem start (n : Int) : PrimesBelow n 2 [] := by
  refine ⟨.nil, fun p => iff_of_false List.not_mem_nil ?_⟩
  rintro ⟨hp, hlt, -⟩
  have h2 := two_le_of_prime hp
  omega

/-- A candidate passes the test exactly if it is a prime divisor. -/
theorem accepts_iff (h : PrimesBelow n i found) (hi : 2 ≤ i) :
    (n % i = 0 && found.all fun p => i % p != 0) = true ↔ i.toNat.Prime ∧ i ∣ n := by
  rw [Bool.and_eq_true, decide_eq_true_eq, ← Int.dvd_iff_emod_eq_zero, List.all_eq_true, and_comm]
  refine and_congr_left fun hdvd => ⟨fun hall => ?_, fun hprime p hp => ?_⟩
  · by_contra hnot
    obtain ⟨p, hp, hlt, hpi⟩ := exists_prime_lt hi hnot
    have hmem : p ∈ found := (h.mem_iff p).mpr ⟨hp, hlt, hpi.trans hdvd⟩
    exact bne_iff_ne.mp (hall p hmem) (Int.emod_eq_zero_of_dvd hpi)
  · obtain ⟨hpp, hlt, -⟩ := (h.mem_iff p).mp hp
    refine bne_iff_ne.mpr fun hzero => ?_
    have heq : p = i := eq_of_prime_dvd_prime hpp hprime (Int.dvd_of_emod_eq_zero hzero)
    omega

/-- One candidate further. -/
theorem next (h : PrimesBelow n i found) (hi : 2 ≤ i) :
    PrimesBelow n (i + 1)
      (if n % i = 0 && found.all fun p => i % p != 0 then i :: found else found) := by
  have hregroup : ∀ {j p : Int}, (p.toNat.Prime ∧ p ∣ n) ∧ p < j ↔ p.toNat.Prime ∧ p < j ∧ p ∣ n :=
    and_right_comm.trans and_assoc
  have hcollected : Collected (fun p => p.toNat.Prime ∧ p ∣ n) i found :=
    ⟨h.descending, fun p => (h.mem_iff p).trans hregroup.symm⟩
  have hnext := hcollected.next (h.accepts_iff hi)
  exact ⟨hnext.descending, fun p => (hnext.mem_iff p).trans hregroup⟩

end PrimesBelow

/-- From any candidate on, the scan ends and has found the primes below the number. -/
theorem primeFactorScan_spec {t : IntType} {n : Int} (hn : n ≤ t.greatest) {i : Int}
    {found : List Int} (hi : 2 ≤ i) (h : PrimesBelow n i found) :
    ∃ all, t.primeFactorScan n i found = some all.reverse ∧ PrimesBelow n (max i n) all := by
  fun_induction primeFactorScan t n i found with
  | case1 i found hlt found' j hnext ih =>
    have hj := next?_eq_some hnext
    subst hj
    obtain ⟨all, hall, hbelow⟩ := ih (by omega) (h.next hi)
    rw [show max i n = max (i + 1) n by omega]
    exact ⟨all, hall, hbelow⟩
  | case2 i found hlt hnone =>
    rw [next?_of_lt (by omega)] at hnone
    cases hnone
  | case3 i found hge =>
    rw [show max i n = i by omega]
    exact ⟨found, rfl, h⟩

/--
The scan for the prime factors of a number ends without leaving a type that holds the number, be
it the greatest or a negative one. It gives exactly the prime divisors that are less than the
number, in strictly ascending order, and so nothing for a prime or for a number below two.
-/
theorem primeFactors_eq_primes_below (t : IntType) {n : Int} (hn : t.Holds n) :
    ∃ ps, t.primeFactors n = some ps ∧ ps.Pairwise (· < ·) ∧
      (∀ p, p ∈ ps ↔ p.toNat.Prime ∧ p < n ∧ p ∣ n) ∧
      (ps = [] ↔ n < 2 ∨ n.toNat.Prime) := by
  have htwo : t.next? 1 = some 2 := next?_of_lt (by have := t.le_greatest; omega)
  obtain ⟨all, hall, hbelow⟩ := primeFactorScan_spec hn.2 (Int.le_refl 2) (PrimesBelow.start n)
  have hmem : ∀ p, p ∈ all.reverse ↔ p.toNat.Prime ∧ p < n ∧ p ∣ n := by
    intro p
    rw [List.mem_reverse, hbelow.mem_iff]
    refine and_congr_right fun hp => and_congr_left fun _ => ?_
    have hp2 := two_le_of_prime hp
    omega
  refine ⟨all.reverse, ?_, List.pairwise_reverse.mpr hbelow.descending, hmem, ?_⟩
  · rw [primeFactors, htwo]
    exact hall
  · constructor
    · intro hnil
      by_contra hnot
      obtain ⟨hn2, hprime⟩ := not_or.mp hnot
      obtain ⟨p, hp⟩ := exists_prime_lt (by omega) hprime
      have hin : p ∈ all.reverse := (hmem p).mpr hp
      rw [hnil] at hin
      cases hin
    · intro hnone
      refine List.eq_nil_iff_forall_not_mem.mpr fun p hp => ?_
      obtain ⟨hpp, hlt, hdvd⟩ := (hmem p).mp hp
      have hp2 := two_le_of_prime hpp
      rcases hnone with hsmall | hprime
      · omega
      · have heq : p = n := eq_of_prime_dvd_prime hpp hprime hdvd
        omega

/-- The greatest number of a type, beyond which the scan could not go. -/
theorem primeFactors_eq_primes_below_greatest :
    (unsigned 8).Holds 255 ∧ (unsigned 8).greatest = 255 ∧
      ∃ ps, (unsigned 8).primeFactors 255 = some ps ∧ ps.Pairwise (· < ·) ∧
        (∀ p, p ∈ ps ↔ p.toNat.Prime ∧ p < 255 ∧ p ∣ 255) ∧
        (ps = [] ↔ (255 : Int) < 2 ∨ (255 : Int).toNat.Prime) :=
  ⟨by decide, by decide, primeFactors_eq_primes_below (unsigned 8) (by decide)⟩

end PageScript.IntType
