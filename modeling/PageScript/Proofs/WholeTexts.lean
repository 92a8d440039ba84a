import PageScript.Number.Analytic
import PageScript.Proofs.Digits
import PageScript.Proofs.Numerals

/-!
# Texts of whole numbers

Writing a number searches for its shortest decimal, and reading sums up digits. For a whole number
up to `2 ^ 53` a decimal without a fraction reads back only if it is the number itself, so the
search ends with digits of the number and zeros behind them.

Main statement: these numbers survive being written and read, as a loop's counter does that names a
power.
-/

namespace PageScript

open BinaryFormat (binary64 holdsWhole_binary64)

namespace BinaryFormat

theorem nearest_whole {n : Nat} (hn : n ≤ Nat.pow 2 53) :
    binary64.nearest (n * binary64.one) 1 = n * binary64.one := by
  have hgrid := (fits_whole holdsWhole_binary64 hn).1
  have h := binary64.nearest_mul hgrid Nat.one_pos
  rwa [Nat.mul_one] at h

theorem lt_nearest_beyond {n : Nat} (hn : Nat.pow 2 53 + 2 ≤ n) :
    Nat.pow 2 53 * binary64.one < binary64.nearest (n * binary64.one) 1 := by
  have hgrid : binary64.OnGrid ((Nat.pow 2 52 + 1) * Nat.pow 2 1 * binary64.one) :=
    binary64.onGrid_mul_pow_mul_one (by decide)
  have hself := binary64.nearest_mul hgrid Nat.one_pos
  rw [Nat.mul_one, show (Nat.pow 2 52 + 1) * Nat.pow 2 1 = Nat.pow 2 53 + 2 from rfl] at hself
  calc Nat.pow 2 53 * binary64.one < (Nat.pow 2 53 + 2) * binary64.one :=
        Nat.mul_lt_mul_of_pos_right (by omega) binary64.one_pos
    _ = binary64.nearest ((Nat.pow 2 53 + 2) * binary64.one) 1 := hself.symm
    _ ≤ binary64.nearest (n * binary64.one) 1 :=
        binary64.nearest_mono (Nat.mul_le_mul_right _ hn) 1

/-- The whole number next after `2 ^ 53` is rounded down to it, but no other one is. -/
theorem nearest_eq_whole_iff {m n : Nat} (hm : m ≠ Nat.pow 2 53 + 1) (hn : n ≤ Nat.pow 2 53) :
    binary64.nearest (m * binary64.one) 1 = n * binary64.one ↔ m = n := by
  by_cases hle : m ≤ Nat.pow 2 53
  · rw [nearest_whole hle, Nat.mul_left_inj (Nat.ne_of_gt binary64.one_pos)]
  · have hlt := lt_nearest_beyond (n := m) (by omega)
    have hbound : n * binary64.one ≤ Nat.pow 2 53 * binary64.one := Nat.mul_le_mul_right _ hn
    constructor
    · intro h
      omega
    · intro h
      omega

end BinaryFormat

namespace Decimal

/-- A decimal with no digit behind the point. -/
def IsNat (d : Decimal) (n : Nat) : Prop :=
  0 ≤ d.exponent ∧ d.coefficient * Nat.pow 10 d.exponent.toNat = n

theorem IsNat.strip {d : Decimal} {n : Nat} (h : d.IsNat n) : d.strip.IsNat n := by
  induction d using Decimal.strip.induct with
  | case1 d hzero ih =>
    rw [Decimal.strip, if_pos hzero]
    obtain ⟨hexponent, hvalue⟩ := h
    apply ih
    refine ⟨by simp only; omega, ?_⟩
    have hsucc : (d.exponent + 1).toNat = d.exponent.toNat + 1 := by omega
    have htens : d.coefficient = d.coefficient / 10 * 10 := by omega
    calc d.coefficient / 10 * Nat.pow 10 (d.exponent + 1).toNat
        = d.coefficient / 10 * 10 * Nat.pow 10 d.exponent.toNat := by
          rw [hsucc, Nat.pow_eq, Nat.pow_eq, Nat.pow_succ]
          ac_rfl
      _ = n := by rw [← htens, hvalue]
  | case2 d hzero =>
    rw [Decimal.strip, if_neg hzero]
    exact h

theorem nearest_natCast (F : BinaryFormat) (c e : Nat) :
    Decimal.nearest F ⟨c, e⟩ = F.nearest (c * Nat.pow 10 e * F.one) 1 := by
  simp [Decimal.nearest, quotient]

theorem steps_whole (n e : Nat) :
    steps binary64 (n * binary64.one) e = (n * binary64.one, binary64.one * Nat.pow 10 e) := by
  simp [steps]

/-- On a grid of whole numbers a neighbour reads back only if the number is on the grid itself. -/
theorem neighbour?_whole {n : Nat} (hn : n ≤ Nat.pow 2 53) (e : Nat) :
    neighbour? binary64 (n * binary64.one) e =
      if Nat.pow 10 e ∣ n then some ⟨n / Nat.pow 10 e, e⟩ else none := by
  have hquotient : n * binary64.one / (binary64.one * Nat.pow 10 e) = n / Nat.pow 10 e := by
    rw [Nat.mul_comm, Nat.mul_div_mul_left _ _ binary64.one_pos]
  have hrest : n * binary64.one % (binary64.one * Nat.pow 10 e) =
      binary64.one * (n % Nat.pow 10 e) := by
    rw [Nat.mul_comm, Nat.mul_mod_mul_left]
  have hpos : 0 < Nat.pow 10 e := Nat.pow_pos (by decide)
  simp only [neighbour?, steps_whole, hquotient, hrest, nearest_natCast]
  by_cases hdvd : Nat.pow 10 e ∣ n
  · have hself : n / Nat.pow 10 e * Nat.pow 10 e = n := Nat.div_mul_cancel hdvd
    have hexact : 2 * (binary64.one * (n % Nat.pow 10 e)) < binary64.one * Nat.pow 10 e := by
      rw [Nat.mod_eq_zero_of_dvd hdvd, Nat.mul_zero, Nat.mul_zero]
      exact Nat.mul_pos binary64.one_pos hpos
    rw [if_pos hdvd, hself, BinaryFormat.nearest_whole hn, beq_self_eq_true,
      decide_eq_true hexact]
    rfl
  · have htens : ∃ t, Nat.pow 10 e = 10 * t := by
      cases e with
      | zero => exact absurd (Nat.one_dvd n) hdvd
      | succ e => exact ⟨Nat.pow 10 e, Nat.mul_comm _ _⟩
    obtain ⟨t, ht⟩ := htens
    have hnone (c : Nat) : (binary64.nearest (c * Nat.pow 10 e * binary64.one) 1 ==
        n * binary64.one) = false := by
      have hodd : c * Nat.pow 10 e ≠ Nat.pow 2 53 + 1 := by
        rw [ht, Nat.mul_left_comm]
        intro h
        have hmod := congrArg (· % 10) h
        simp only [Nat.mul_mod_right] at hmod
        exact absurd hmod (by decide)
      rw [beq_eq_false_iff_ne, ne_eq, BinaryFormat.nearest_eq_whole_iff hodd hn]
      intro h
      exact hdvd ⟨c, by rw [← h, Nat.mul_comm]⟩
    rw [if_neg hdvd, hnone, hnone]
    rfl

/-- The search goes down to the first grid that the number is on, at the latest to that of one. -/
theorem search_whole {n : Nat} (hn : n ≤ Nat.pow 2 53) (e : Nat) {grids : Nat} (he : e < grids) :
    ∃ d, search binary64 (n * binary64.one) grids e = some d ∧ d.IsNat n := by
  induction e generalizing grids with
  | zero =>
    obtain ⟨grids, rfl⟩ : ∃ g, grids = g + 1 := ⟨grids - 1, by omega⟩
    refine ⟨⟨n / Nat.pow 10 0, (0 : Nat)⟩, ?_, by simp, ?_⟩
    · rw [search, neighbour?_whole hn, if_pos (Nat.one_dvd n)]
    · exact Nat.div_mul_cancel (Nat.one_dvd n)
  | succ e ih =>
    obtain ⟨grids, rfl⟩ : ∃ g, grids = g + 1 := ⟨grids - 1, by omega⟩
    rw [search, neighbour?_whole hn]
    by_cases hdvd : Nat.pow 10 (e + 1) ∣ n
    · rw [if_pos hdvd]
      exact ⟨_, rfl, by simp only; omega, Nat.div_mul_cancel hdvd⟩
    · have hdown : ((e + 1 : Nat) : Int) - 1 = (e : Nat) := by omega
      rw [if_neg hdvd, hdown]
      exact ih (by omega)

theorem leadingExponent_whole {n : Nat} (hn : 0 < n) :
    leadingExponent binary64 (n * binary64.one) = ((Nat.toDigits 10 n).length - 1 : Nat) := by
  have hle : binary64.one ≤ n * binary64.one := Nat.le_mul_of_pos_left _ hn
  have hlength := Nat.length_toDigits_pos (b := 10) (n := n)
  rw [leadingExponent, if_pos hle, Nat.mul_div_cancel n binary64.one_pos]
  omega

theorem shortest_whole {n : Nat} (hpos : 0 < n) (hn : n ≤ Nat.pow 2 53) :
    (shortest binary64 (n * binary64.one)).IsNat n := by
  have hlength : (Nat.toDigits 10 n).length ≤ 16 := by
    rw [Nat.length_toDigits_le_iff (by decide) (by decide)]
    exact Nat.lt_of_le_of_lt hn (by decide)
  obtain ⟨d, hsearch, hd⟩ :=
    search_whole hn ((Nat.toDigits 10 n).length - 1) (show _ < 17 by omega)
  rw [shortest, leadingExponent_whole hpos, hsearch]
  exact hd.strip

end Decimal

namespace NumberStyle

theorem isPositional_whole {n : Nat} (hpos : 0 < n) (hn : n ≤ Nat.pow 2 53) :
    plain.isPositional binary64 (n * binary64.one) = true := by
  have hbelow : Nat.pow 2 53 * binary64.one < plain.positionalBelow.nearest binary64 := by
    decide +kernel
  have hmax : n * binary64.one ≤ Nat.pow 2 53 * binary64.one := Nat.mul_le_mul_right _ hn
  exact isPositional_of_one_le (Nat.le_mul_of_pos_left _ hpos) (Nat.lt_of_le_of_lt hmax hbelow)

theorem magnitudeText_whole {n : Nat} (hpos : 0 < n) (hn : n ≤ Nat.pow 2 53) :
    plain.magnitudeText binary64 (n * binary64.one) = Nat.toDigits 10 n := by
  obtain ⟨hexponent, hvalue⟩ := Decimal.shortest_whole hpos hn
  have hcoefficient : 0 < (Decimal.shortest binary64 (n * binary64.one)).coefficient := by
    apply Nat.pos_of_ne_zero
    intro hzero
    rw [hzero, Nat.zero_mul] at hvalue
    omega
  have hnothing : plain.wholeMark.toList = [] := rfl
  rw [magnitudeText, isPositional_whole hpos hn, if_pos rfl, positional, if_pos hexponent,
    ← toDigits_mul_pow hcoefficient, hvalue, hnothing, List.append_nil]

end NumberStyle

namespace Binary

/-- Both zeros have the same text. -/
theorem text_zero (negative : Bool) : (zero negative : Binary64).text = "0" := by
  cases negative <;> rfl

/-- Whole numbers up to `2 ^ 53` are written in all their digits. -/
theorem IsInt.text {x : Binary64} {k : Int} (hx : x.IsInt k) (hk : k.natAbs ≤ Nat.pow 2 53) :
    x.text = String.ofList ((if k < 0 then ['-'] else []) ++ Nat.toDigits 10 k.natAbs) := by
  by_cases hzero : k = 0
  · subst hzero
    rw [hx.unique isInt_zero, text_zero]
    rfl
  · obtain ⟨h, rfl⟩ := hx
    have hpos : 0 < k.natAbs := by omega
    have hne : k.natAbs * binary64.one ≠ 0 := Nat.ne_of_gt (Nat.mul_pos hpos binary64.one_pos)
    rw [Binary.text, NumberStyle.write, if_neg hne, NumberStyle.magnitudeText_whole hpos hk]
    simp only [decide_eq_true_eq]

end Binary

/--
Whole numbers up to `2 ^ 53` either way are read back from their texts exactly, and both zeros as
the positive one. A number below that, as text, names the power that is one more, for every base.
A name without digits names no power, whatever the base.
-/
theorem whole_numbers_read_back :
    (∀ k : Int, k.natAbs ≤ Nat.pow 2 53 →
      (Binary.ofInt k : Binary64).IsInt k ∧
      parseInteger (Binary.ofInt k : Binary64).text = .ofInt k) ∧
    parseInteger (Binary.zero true : Binary64).text = .zero false ∧
    (∀ (k : Int) (base : Binary64), k.natAbs < Nat.pow 2 53 →
      NamedPower.call ⟨base⟩ (Binary.ofInt k : Binary64).text = power base (.ofInt (k + 1))) ∧
    ∀ (name : String) (base : Binary64), (Numeral.read name.toList).digits = [] →
      NamedPower.call ⟨base⟩ name = .quiet := by
  have hF := holdsWhole_binary64
  have hread : ∀ k : Int, k.natAbs ≤ Nat.pow 2 53 →
      (Binary.ofInt k : Binary64).IsInt k ∧
      parseInteger (Binary.ofInt k : Binary64).text = .ofInt k := by
    intro k hk
    have hint : (Binary.ofInt k : Binary64).IsInt k := Binary.ofInt_isInt hF hk
    refine ⟨hint, ?_⟩
    rw [hint.text hk]
    exact (parseInteger_isInt hk).unique hint
  refine ⟨hread, ?_, ?_, ?_⟩
  · have hzero := parseInteger_isInt (k := 0) (Nat.zero_le _)
    rw [Binary.text_zero]
    exact hzero.unique Binary.isInt_zero
  · intro k base hk
    obtain ⟨hint, hsame⟩ := hread k (Nat.le_of_lt hk)
    have hone : (Binary.ofNat 1 : Binary64).IsInt 1 := Binary.ofNat_isInt hF (by decide)
    have hnext : (k + 1).natAbs ≤ Nat.pow 2 53 := by omega
    rw [NamedPower.call, hsame, (hint.add hF hone hnext).unique (Binary.ofInt_isInt hF hnext)]
  · intro name base hname
    rw [NamedPower.call, parseInteger, Numeral.value, hname]
    rfl

/-- The least number that is read back, the greatest that names a power, and a mark of a radix. -/
theorem whole_numbers_read_back_limits :
    parseInteger (Binary.ofInt (-9007199254740992) : Binary64).text = .ofInt (-9007199254740992) ∧
    (∀ base, NamedPower.call ⟨base⟩ (Binary.ofInt 9007199254740991 : Binary64).text =
      power base (.ofInt 9007199254740992)) ∧
    NamedPower.call ⟨.ofNat 1⟩ "-0x" = .quiet := by
  obtain ⟨hread, -, hpower, hnone⟩ := whole_numbers_read_back
  refine ⟨(hread _ (by decide)).2, fun base => hpower _ base (by decide), ?_⟩
  exact hnone "-0x" _ rfl

end PageScript
