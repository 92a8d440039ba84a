/-!
# Decimal digits

A natural number is determined by its digits, digits are told apart from what follows them by any
mark that is no digit, and zeros behind them scale the number. The first digit is no zero, and the
last is the rest by ten.
-/

namespace PageScript

theorem notMem_toDigits {mark : Char} (hmark : mark.isDigit = false) (n : Nat) :
    mark ∉ Nat.toDigits 10 n := by
  intro hmem
  have hdigit := Nat.isDigit_of_mem_toDigits (by decide) (by decide) hmem
  rw [hmark] at hdigit
  cases hdigit

theorem toDigits_inj {m n : Nat} : Nat.toDigits 10 m = Nat.toDigits 10 n ↔ m = n := by
  refine ⟨fun h => ?_, fun h => h ▸ rfl⟩
  rw [← Nat.ofDigitChars_ten_toDigits (n := m), h, Nat.ofDigitChars_ten_toDigits]

theorem toDigits_of_ten_le {n : Nat} (hn : 10 ≤ n) :
    Nat.toDigits 10 n = Nat.toDigits 10 (n / 10) ++ [(n % 10).digitChar] := by
  have hstep := Nat.toDigits_append_toDigits (b := 10) (n := n / 10) (d := n % 10) (by decide)
    (by omega) (by omega)
  rw [Nat.div_add_mod] at hstep
  rw [← hstep, Nat.toDigits_of_lt_base (Nat.mod_lt n (by decide))]

theorem digitChar_ne_zero {d : Nat} (hmax : d < 10) (hmin : 0 < d) : d.digitChar ≠ '0' := by
  revert d
  decide

theorem head?_toDigits {n : Nat} (hn : 0 < n) : (Nat.toDigits 10 n).head? ≠ some '0' := by
  induction n using Nat.strongRecOn with
  | ind n ih =>
    by_cases hlt : n < 10
    · rw [Nat.toDigits_of_lt_base hlt, List.head?_cons, ne_eq, Option.some.injEq]
      exact digitChar_ne_zero hlt hn
    · have hfront := ih (n / 10) (by omega) (by omega)
      obtain ⟨c, cs, hc⟩ := List.exists_cons_of_ne_nil (Nat.toDigits_ne_nil (n := n / 10) (b := 10))
      rw [hc] at hfront
      rw [toDigits_of_ten_le (by omega), hc]
      exact hfront

theorem getLast?_toDigits (n : Nat) : (Nat.toDigits 10 n).getLast? = some (n % 10).digitChar := by
  by_cases hlt : n < 10
  · rw [Nat.toDigits_of_lt_base hlt, Nat.mod_eq_of_lt hlt, List.getLast?_singleton]
  · rw [toDigits_of_ten_le (by omega), List.getLast?_concat]

/-- Each zero behind the digits of a number multiplies it by ten. -/
theorem toDigits_mul_pow {c : Nat} (hc : 0 < c) (e : Nat) :
    Nat.toDigits 10 (c * Nat.pow 10 e) = Nat.toDigits 10 c ++ List.replicate e '0' := by
  induction e with
  | zero => simp
  | succ e ih =>
    have hpos : 0 < c * Nat.pow 10 e := Nat.mul_pos hc (Nat.pow_pos (by decide))
    have hstep := Nat.toDigits_append_toDigits (b := 10) (d := 0) (by decide) hpos (by decide)
    have hpow : c * Nat.pow 10 (e + 1) = 10 * (c * Nat.pow 10 e) + 0 := by
      rw [Nat.pow_eq, Nat.pow_eq, Nat.pow_succ, Nat.add_zero]
      ac_rfl
    rw [hpow, ← hstep, ih, Nat.toDigits_zero, List.append_assoc, List.replicate_succ']

end PageScript
