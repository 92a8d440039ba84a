import Mathlib.Data.List.DropRight
import PageScript.Number.Numeral
import PageScript.Proofs.Rounding

/-!
# Reading numerals

Blanks before a numeral are skipped and blanks behind it end it, wherever they are met: after the
sign, inside the mark of a radix or in the run of digits. So the ends of a text can be trimmed
without changing the integer that is read from it.

The value of a run of digits is summed up in floating point. As long as it is at most `2 ^ 53`, so
is the value of each shorter run, and nothing is rounded.
-/

namespace PageScript

/-- No sign, digit or letter is blank. -/
theorem isBlank_eq_false_of_visible {c : Char} (hmin : 33 ≤ c.toNat) (hmax : c.toNat ≤ 126) :
    isBlank c = false := by
  simp [isBlank, blankRanges]
  omega

theorem ne_of_isBlank {b c : Char} (hb : isBlank b = true) (hc : isBlank c = false) : b ≠ c := by
  rintro rfl
  rw [hb] at hc
  cases hc

namespace Numeral

theorem visible_of_digit? {radix d : Nat} {c : Char} (h : digit? radix c = some d) :
    33 ≤ c.toNat ∧ c.toNat ≤ 126 := by
  by_cases hdigit : '0' ≤ c ∧ c ≤ '9'
  · change 48 ≤ c.toNat ∧ c.toNat ≤ 57 at hdigit
    omega
  by_cases hlower : 'a' ≤ c ∧ c ≤ 'z'
  · change 97 ≤ c.toNat ∧ c.toNat ≤ 122 at hlower
    omega
  by_cases hupper : 'A' ≤ c ∧ c ≤ 'Z'
  · change 65 ≤ c.toNat ∧ c.toNat ≤ 90 at hupper
    omega
  rw [digit?, if_neg hdigit, if_neg hlower, if_neg hupper] at h
  cases h

theorem digit?_of_isBlank {c : Char} (hc : isBlank c = true) (radix : Nat) :
    digit? radix c = none := by
  cases hd : digit? radix c with
  | none => rfl
  | some d =>
    obtain ⟨hmin, hmax⟩ := visible_of_digit? hd
    rw [isBlank_eq_false_of_visible hmin hmax] at hc
    cases hc

theorem takeSign_cons (c : Char) (cs : List Char) :
    takeSign (c :: cs) =
      if c = '-' then (true, cs) else if c = '+' then (false, cs) else (false, c :: cs) := by
  unfold takeSign
  split <;> simp_all

theorem takeRadix_cons_cons (c d : Char) (cs : List Char) :
    takeRadix (c :: d :: cs) =
      if c = '0' ∧ (d = 'x' ∨ d = 'X') then (16, cs) else (10, c :: d :: cs) := by
  unfold takeRadix
  split <;> simp_all

theorem takeRadix_singleton (c : Char) : takeRadix [c] = (10, [c]) := by
  unfold takeRadix
  split <;> simp_all

/-- A text that starts with no mark is decimal from its start on. -/
theorem takeRadix_of_unmarked {cs : List Char} (hx : ¬ ['0', 'x'] <+: cs)
    (hX : ¬ ['0', 'X'] <+: cs) : takeRadix cs = (10, cs) := by
  unfold takeRadix
  split
  · exact absurd ⟨_, rfl⟩ hx
  · exact absurd ⟨_, rfl⟩ hX
  · rfl

section Blanks

variable {blanks : List Char} (hblanks : ∀ c ∈ blanks, isBlank c = true)
include hblanks

theorem takeSign_append_blanks (cs : List Char) :
    takeSign (cs ++ blanks) = ((takeSign cs).1, (takeSign cs).2 ++ blanks) := by
  cases cs with
  | nil =>
    cases blanks with
    | nil => rfl
    | cons b bs =>
      have hb := hblanks b List.mem_cons_self
      rw [List.nil_append, takeSign_cons, if_neg (ne_of_isBlank hb rfl),
        if_neg (ne_of_isBlank hb rfl)]
      rfl
  | cons c cs =>
    rw [List.cons_append, takeSign_cons, takeSign_cons]
    split
    · rfl
    · split <;> rfl

/-- A blank is not part of a mark, so it does not complete one either. -/
theorem takeRadix_append_blanks (cs : List Char) :
    takeRadix (cs ++ blanks) = ((takeRadix cs).1, (takeRadix cs).2 ++ blanks) := by
  match blanks, cs with
  | [], cs => simp
  | [b], [] => exact takeRadix_singleton b
  | b :: b' :: bs, [] =>
    have hb : b ≠ '0' := ne_of_isBlank (hblanks b List.mem_cons_self) rfl
    rw [List.nil_append, takeRadix_cons_cons, if_neg fun h => hb h.1]
    rfl
  | b :: bs, [c] =>
    have hblank := hblanks b List.mem_cons_self
    have hx : b ≠ 'x' := ne_of_isBlank hblank rfl
    have hX : b ≠ 'X' := ne_of_isBlank hblank rfl
    rw [List.singleton_append, takeRadix_cons_cons, if_neg fun h => h.2.elim hx hX,
      takeRadix_singleton]
    rfl
  | b :: bs, c :: d :: cs =>
    rw [List.cons_append, List.cons_append, takeRadix_cons_cons, takeRadix_cons_cons]
    split <;> rfl

theorem takeDigits_append_blanks (radix : Nat) (cs : List Char) :
    takeDigits radix (cs ++ blanks) = takeDigits radix cs := by
  induction cs with
  | nil =>
    cases blanks with
    | nil => rfl
    | cons b bs =>
      have hb := digit?_of_isBlank (hblanks b List.mem_cons_self) radix
      simp only [List.nil_append, takeDigits, hb]
  | cons c cs ih =>
    simp only [List.cons_append, takeDigits, ih]

/-- Blanks at the end are skipped too if there is nothing else. -/
theorem trimStart_append_blanks (cs : List Char) :
    trimStart (cs ++ blanks) = if trimStart cs = [] then [] else trimStart cs ++ blanks := by
  rw [trimStart, trimStart, List.dropWhile_append, List.dropWhile_eq_nil_iff.mpr hblanks]
  simp only [List.isEmpty_iff]

theorem read_append_blanks (cs : List Char) : read (cs ++ blanks) = read cs := by
  by_cases hall : trimStart cs = []
  · rw [read, trimStart_append_blanks hblanks, if_pos hall, read, hall]
  · simp only [read, trimStart_append_blanks hblanks, if_neg hall, takeSign_append_blanks hblanks,
      takeRadix_append_blanks hblanks, takeDigits_append_blanks hblanks]

end Blanks

theorem read_trimStart (cs : List Char) : read (trimStart cs) = read cs := by
  rw [read, read, trimStart, trimStart, List.dropWhile_idempotent]

theorem read_trim (cs : List Char) : read (trim cs) = read cs := by
  have hends : trim cs ++ (trimStart cs).rtakeWhile isBlank = trimStart cs :=
    List.rdropWhile_append_rtakeWhile
  have hblanks : ∀ c ∈ (trimStart cs).rtakeWhile isBlank, isBlank c = true :=
    fun c hc => List.mem_rtakeWhile_imp hc
  calc read (trim cs) = read (trim cs ++ (trimStart cs).rtakeWhile isBlank) :=
        (read_append_blanks hblanks (trim cs)).symm
    _ = read (trimStart cs) := by rw [hends]
    _ = read cs := read_trimStart cs

/-- The value of a run of digits, without rounding. -/
def number (radix : Nat) (digits : List Nat) : Nat := digits.foldl (fun n d => n * radix + d) 0

theorem le_foldl {radix : Nat} (hradix : 1 ≤ radix) (digits : List Nat) (n : Nat) :
    n ≤ digits.foldl (fun n d => n * radix + d) n := by
  induction digits generalizing n with
  | nil => exact Nat.le_refl n
  | cons d digits ih =>
    have hmul : n ≤ n * radix := Nat.le_mul_of_pos_right n hradix
    exact Nat.le_trans (by omega) (ih (n * radix + d))

/-- Summing up goes through the values of all shorter runs. -/
theorem foldl_isInt {radix : Nat} (hmin : 1 ≤ radix) (hmax : radix ≤ Nat.pow 2 53)
    (digits : List Nat) {x : Binary64} {n : Nat} (hx : x.IsInt n)
    (hn : digits.foldl (fun n d => n * radix + d) n ≤ Nat.pow 2 53) :
    (digits.foldl (fun value d => value * .ofNat radix + .ofNat d) x).IsInt
      (digits.foldl (fun n d => n * radix + d) n : Nat) := by
  have hF := BinaryFormat.holdsWhole_binary64
  induction digits generalizing x n with
  | nil => exact hx
  | cons d digits ih =>
    have hnext : n * radix + d ≤ Nat.pow 2 53 := Nat.le_trans (le_foldl hmin digits _) hn
    have hproduct : (x * .ofNat radix).IsInt (n * radix : Nat) :=
      hx.mul hF (Binary.ofNat_isInt hF hmax) (Nat.le_trans (Nat.le_add_right _ d) hnext)
    have hdigit : (Binary.ofNat d : Binary64).IsInt d :=
      Binary.ofNat_isInt hF (Nat.le_trans (Nat.le_add_left d _) hnext)
    have hsum := hproduct.add hF hdigit (by rwa [← Int.natCast_add, Int.natAbs_natCast])
    rw [← Int.natCast_add] at hsum
    exact ih hsum hn

theorem sum_isInt {radix : Nat} (hmin : 1 ≤ radix) (hmax : radix ≤ Nat.pow 2 53)
    {digits : List Nat} (hn : number radix digits ≤ Nat.pow 2 53) :
    (sum radix digits).IsInt (number radix digits) :=
  foldl_isInt hmin hmax digits Binary.isInt_zero hn

theorem bounds_of_isDigit {c : Char} (hc : c.isDigit = true) : 48 ≤ c.toNat ∧ c.toNat ≤ 57 := by
  simpa [Char.isDigit, UInt32.le_iff_toNat_le] using hc

theorem digit?_of_isDigit {c : Char} (hc : c.isDigit = true) :
    digit? 10 c = some (c.toNat - '0'.toNat) := by
  have hbounds := bounds_of_isDigit hc
  have hrange : '0' ≤ c ∧ c ≤ '9' := hbounds
  have hvalue : c.toNat - '0'.toNat < 10 := by
    change c.toNat - 48 < 10
    omega
  rw [digit?, if_pos hrange, Option.filter_some, if_pos (decide_eq_true hvalue)]

section Digits

variable {cs : List Char} (hdigits : ∀ c ∈ cs, c.isDigit = true)
include hdigits

theorem takeSign_digits : takeSign cs = (false, cs) := by
  cases cs with
  | nil => rfl
  | cons c cs =>
    have hc := hdigits c List.mem_cons_self
    have hminus : c ≠ '-' := fun e => absurd (e ▸ hc) (by decide)
    have hplus : c ≠ '+' := fun e => absurd (e ▸ hc) (by decide)
    rw [takeSign_cons, if_neg hminus, if_neg hplus]

theorem takeRadix_digits : takeRadix cs = (10, cs) := by
  match cs with
  | [] => rfl
  | [c] => exact takeRadix_singleton c
  | c :: d :: cs =>
    have hd := hdigits d (.tail c List.mem_cons_self)
    have hx : d ≠ 'x' := fun e => absurd (e ▸ hd) (by decide)
    have hX : d ≠ 'X' := fun e => absurd (e ▸ hd) (by decide)
    rw [takeRadix_cons_cons, if_neg fun h => h.2.elim hx hX]

theorem takeDigits_digits : takeDigits 10 cs = cs.map fun c => c.toNat - '0'.toNat := by
  induction cs with
  | nil => rfl
  | cons c cs ih =>
    have hrest := ih fun d hd => hdigits d (.tail c hd)
    simp only [takeDigits, digit?_of_isDigit (hdigits c List.mem_cons_self), hrest, List.map_cons]

theorem read_digits : read cs = ⟨false, 10, cs.map fun c => c.toNat - '0'.toNat⟩ := by
  have htrim : trimStart cs = cs := by
    cases cs with
    | nil => rfl
    | cons c cs =>
      obtain ⟨hmin, hmax⟩ := bounds_of_isDigit (hdigits c List.mem_cons_self)
      have hc : isBlank c = false := isBlank_eq_false_of_visible (by omega) (by omega)
      exact List.dropWhile_cons_of_neg (by rw [hc]; decide)
  simp only [read, htrim, takeSign_digits hdigits, takeRadix_digits hdigits,
    takeDigits_digits hdigits]

theorem read_minus_digits : read ('-' :: cs) = ⟨true, 10, cs.map fun c => c.toNat - '0'.toNat⟩ := by
  have htrim : trimStart ('-' :: cs) = '-' :: cs := rfl
  have hsign : takeSign ('-' :: cs) = (true, cs) := rfl
  simp only [read, htrim, hsign, takeRadix_digits hdigits, takeDigits_digits hdigits]

end Digits

theorem number_toDigits (n : Nat) :
    number 10 ((Nat.toDigits 10 n).map fun c => c.toNat - '0'.toNat) = n := by
  have hdigits := Nat.ofDigitChars_ten_toDigits (n := n)
  rw [Nat.ofDigitChars_eq_foldl] at hdigits
  rw [number, List.foldl_map]
  simpa only [Nat.mul_comm] using hdigits

end Numeral

theorem parseInteger_trim (cs : List Char) :
    parseInteger (String.ofList (trim cs)) = parseInteger (String.ofList cs) := by
  rw [parseInteger, parseInteger, String.toList_ofList, String.toList_ofList, Numeral.read_trim]

/-- An integer written in digits is read back as it is. -/
theorem parseInteger_isInt {k : Int} (hk : k.natAbs ≤ Nat.pow 2 53) :
    (parseInteger (String.ofList
      ((if k < 0 then ['-'] else []) ++ Nat.toDigits 10 k.natAbs))).IsInt k := by
  have hdigits : ∀ c ∈ Nat.toDigits 10 k.natAbs, c.isDigit = true :=
    fun c hc => Nat.isDigit_of_mem_toDigits (by decide) (by decide) hc
  have hnumber := Numeral.number_toDigits k.natAbs
  have hten : 1 ≤ 10 ∧ 10 ≤ Nat.pow 2 53 := by decide
  have hsum := Numeral.sum_isInt hten.1 hten.2 (hnumber.symm ▸ hk)
  rw [hnumber] at hsum
  have hsome : ((Nat.toDigits 10 k.natAbs).map fun c => c.toNat - '0'.toNat).isEmpty = false := by
    simp [Nat.toDigits_ne_nil]
  rw [parseInteger, String.toList_ofList]
  by_cases hneg : k < 0
  · rw [if_pos hneg, List.singleton_append, Numeral.read_minus_digits hdigits, Numeral.value, hsome]
    have h := hsum.neg (by omega)
    rwa [Int.ofNat_natAbs_of_nonpos (by omega), Int.neg_neg] at h
  · rw [if_neg hneg, List.nil_append, Numeral.read_digits hdigits, Numeral.value, hsome]
    rwa [Int.natAbs_of_nonneg (by omega)] at hsum

end PageScript
