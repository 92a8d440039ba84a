import PageScript.Integer

/-!
# Divisors

A scan goes through the candidates one by one and collects those that pass its test. The scan for
divisors tries the number itself as the last candidate. Where that is the greatest number of the
type there is no next candidate, and the scan ends before it would need one.

Main statement: the scan ends within the type, also there, and what it gives are the divisors of the
number, each once and ascending.
-/

namespace PageScript.IntType

/-- The numbers below the candidate `i` that pass a test, greatest first. -/
structure Collected (passes : Int → Prop) (i : Int) (found : List Int) : Prop where
  descending : found.Pairwise (· > ·)
  mem_iff : ∀ d, d ∈ found ↔ passes d ∧ d < i

namespace Collected

variable {passes : Int → Prop} {i : Int} {found : List Int}

/-- One candidate further. -/
theorem next (h : Collected passes i found) {accepted : Prop} [Decidable accepted]
    (haccepted : accepted ↔ passes i) :
    Collected passes (i + 1) (if accepted then i :: found else found) := by
  have hsplit : ∀ d : Int, d < i + 1 ↔ d = i ∨ d < i := fun d => by omega
  by_cases haccept : accepted
  · rw [if_pos haccept]
    refine ⟨h.descending.cons fun d hd => ((h.mem_iff d).mp hd).2, fun d => ?_⟩
    rw [List.mem_cons, h.mem_iff, hsplit]
    constructor
    · rintro (rfl | ⟨hd, hlt⟩)
      · exact ⟨haccepted.mp haccept, .inl rfl⟩
      · exact ⟨hd, .inr hlt⟩
    · rintro ⟨hd, heq | hlt⟩
      · exact .inl heq
      · exact .inr ⟨hd, hlt⟩
  · rw [if_neg haccept]
    refine ⟨h.descending, fun d => ?_⟩
    rw [h.mem_iff, hsplit]
    constructor
    · rintro ⟨hd, hlt⟩
      exact ⟨hd, .inr hlt⟩
    · rintro ⟨hd, rfl | hlt⟩
      · exact absurd (haccepted.mpr hd) haccept
      · exact ⟨hd, hlt⟩

end Collected

/-- A positive divisor. -/
def Divides (n d : Int) : Prop := 1 ≤ d ∧ d ∣ n

/-- From any candidate on, the scan ends and has found the divisors up to the number. -/
theorem divisorScan_spec {t : IntType} {n : Int} (hn : n ≤ t.greatest) {i : Int} {found : List Int}
    (hi : 1 ≤ i) (h : Collected (Divides n) i found) :
    ∃ all, t.divisorScan n i found = some all.reverse ∧
      Collected (Divides n) (max i (n + 1)) all := by
  have htest : ∀ {i : Int}, 1 ≤ i → (n % i = 0 ↔ Divides n i) := fun {i} hi => by
    rw [← Int.dvd_iff_emod_eq_zero, Divides, and_iff_right hi]
  fun_induction divisorScan t n i found with
  | case1 found hle found' =>
    -- The candidate is the greatest number of the type, so it is the number itself.
    rw [show max t.greatest (n + 1) = t.greatest + 1 by omega]
    exact ⟨found', rfl, h.next (htest hi)⟩
  | case2 i found hle found' hgreatest j hnext ih =>
    have hj := next?_eq_some hnext
    subst hj
    rw [show max i (n + 1) = max (i + 1) (n + 1) by omega]
    exact ih (by omega) (h.next (htest hi))
  | case3 i found hle hgreatest hnone =>
    rw [next?_of_lt (by omega)] at hnone
    cases hnone
  | case4 i found hgt =>
    rw [show max i (n + 1) = i by omega]
    exact ⟨found, rfl, h⟩

/--
The scan for the divisors of a number ends without leaving a type that holds the number, be it the
greatest or a negative one. It gives exactly the divisors from one up to the number, in strictly
ascending order, and so nothing for a number below one.
-/
theorem divisors_eq_all (t : IntType) {n : Int} (hn : t.Holds n) :
    ∃ ds, t.divisors n = some ds ∧ ds.Pairwise (· < ·) ∧
      (∀ d, d ∈ ds ↔ 1 ≤ d ∧ d ≤ n ∧ d ∣ n) ∧ (ds = [] ↔ n < 1) := by
  have hstart : Collected (Divides n) 1 [] := by
    refine ⟨.nil, fun d => iff_of_false List.not_mem_nil ?_⟩
    rintro ⟨⟨hd, -⟩, hlt⟩
    omega
  obtain ⟨all, hall, hfound⟩ := divisorScan_spec hn.2 (Int.le_refl 1) hstart
  have hmem : ∀ d, d ∈ all.reverse ↔ 1 ≤ d ∧ d ≤ n ∧ d ∣ n := by
    intro d
    rw [List.mem_reverse, hfound.mem_iff, Divides]
    constructor
    · rintro ⟨⟨hd, hdvd⟩, hlt⟩
      exact ⟨hd, by omega, hdvd⟩
    · rintro ⟨hd, hle, hdvd⟩
      exact ⟨⟨hd, hdvd⟩, by omega⟩
  refine ⟨all.reverse, hall, List.pairwise_reverse.mpr hfound.descending, hmem, ?_⟩
  constructor
  · intro hnil
    refine Int.not_le.mp fun hpos => ?_
    have hself : n ∈ all.reverse := (hmem n).mpr ⟨hpos, Int.le_refl n, Int.dvd_refl n⟩
    rw [hnil] at hself
    cases hself
  · intro hsmall
    refine List.eq_nil_iff_forall_not_mem.mpr fun d hd => ?_
    obtain ⟨hone, hle, -⟩ := (hmem d).mp hd
    omega

/-- The greatest number of a signed type, which is its own last divisor, and the least one. -/
theorem divisors_eq_all_limits :
    (∃ ds, (signed 8).Holds 127 ∧ (signed 8).greatest = 127 ∧ (signed 8).divisors 127 = some ds ∧
      ds.Pairwise (· < ·) ∧ (∀ d, d ∈ ds ↔ 1 ≤ d ∧ d ≤ 127 ∧ d ∣ 127) ∧
      (ds = [] ↔ (127 : Int) < 1)) ∧
    ∃ ds, (signed 8).Holds (-128) ∧ (signed 8).least = -128 ∧ (signed 8).divisors (-128) = some ds ∧
      ds.Pairwise (· < ·) ∧ (∀ d, d ∈ ds ↔ 1 ≤ d ∧ d ≤ -128 ∧ d ∣ -128) ∧
      (ds = [] ↔ (-128 : Int) < 1) := by
  obtain ⟨ds, hds⟩ := divisors_eq_all (signed 8) (n := 127) (by decide)
  obtain ⟨es, hes⟩ := divisors_eq_all (signed 8) (n := -128) (by decide)
  exact ⟨⟨ds, by decide, by decide, hds⟩, es, by decide, by decide, hes⟩

end PageScript.IntType
