import PageScript.Proofs.Lists
import PageScript.Proofs.NumeralBytes

/-!
# The parts of a numeral

A text falls into blanks, a sign, the mark of a radix, a run of digits and a rest. Blanks and run
are as long as they can be, and sign and mark are only missing where there is none. `Parts.Of` says
this without reference to how a numeral is read, and every text has such parts.

Main statement: the integer at the start of a text is no number exactly if the run is empty.
Otherwise it is the run summed up in floating point, which may become infinite but never ceases to
be a number.
-/

namespace PageScript

namespace Binary

variable {F : BinaryFormat} {x y : Binary F}

/-- A number without a minus sign, finite or not. -/
inductive NonNegative : Binary F → Prop where
  | infinite : NonNegative (.infinite false)
  | finite (m : Nat) (h : F.Fits m) : NonNegative (.finite false m h)

theorem NonNegative.isNaN (hx : x.NonNegative) : x.isNaN = false := by
  cases hx <;> rfl

theorem round_nonNegative (n d : Nat) : (round false n d : Binary F).NonNegative := by
  unfold round
  dsimp only
  split
  · exact .finite _ _
  · exact .infinite

theorem NonNegative.add (hx : x.NonNegative) (hy : y.NonNegative) : (x + y).NonNegative := by
  cases hx with
  | infinite =>
    cases hy with
    | infinite => exact .infinite
    | finite n hn => exact .infinite
  | finite m hm =>
    cases hy with
    | infinite => exact .infinite
    | finite n hn =>
      change NonNegative (if signed false m + signed false n = 0 then zero (false && false)
        else ofUnits (signed false m + signed false n))
      split
      · exact .finite 0 F.fits_zero
      · have hsign : decide (signed false m + signed false n < 0) = false := by
          refine decide_eq_false ?_
          change ¬ ((m : Int) + n < 0)
          omega
        rw [ofUnits, hsign]
        exact round_nonNegative _ _

/-- An infinity stays one when it is multiplied, unless by zero. -/
theorem NonNegative.mul (hx : x.NonNegative) {n : Nat} (hn : 0 < n) (h : F.Fits n) :
    (x * .finite false n h).NonNegative := by
  cases hx with
  | infinite =>
    change NonNegative (if n = 0 then quiet else .infinite (false ^^ false))
    rw [if_neg (by omega)]
    exact .infinite
  | finite m hm => exact round_nonNegative _ _

theorem isNaN_neg (x : Binary F) : (-x).isNaN = x.isNaN := by
  cases x <;> rfl

end Binary

namespace Numeral

/-- Summing up never ceases to be a number, however long the run is. -/
theorem foldl_nonNegative {radix : Nat} (hmin : 1 ≤ radix) (hmax : radix ≤ Nat.pow 2 53)
    (digits : List Nat) {x : Binary64} (hx : x.NonNegative) :
    (digits.foldl (fun value d => value * .ofNat radix + .ofNat d) x).NonNegative := by
  have hradix := Binary.ofNat_isInt BinaryFormat.holdsWhole_binary64 hmax
  obtain ⟨hfits, heq⟩ := Binary.isInt_natCast_iff.mp hradix
  induction digits generalizing x with
  | nil => exact hx
  | cons d digits ih =>
    rw [List.foldl_cons]
    refine ih (Binary.NonNegative.add ?_ (Binary.round_nonNegative _ _))
    rw [heq]
    exact hx.mul (Nat.mul_pos hmin (BinaryFormat.one_pos _)) hfits

/-- A numeral is no number exactly if it has no digits. -/
theorem isNaN_value_iff {n : Numeral} (hmin : 1 ≤ n.radix) (hmax : n.radix ≤ Nat.pow 2 53) :
    n.value.isNaN = true ↔ n.digits = [] := by
  have hsum : (sum n.radix n.digits).isNaN = false :=
    (foldl_nonNegative hmin hmax n.digits (.finite 0 (BinaryFormat.fits_zero _))).isNaN
  rw [value]
  by_cases hempty : n.digits = []
  · rw [hempty, List.isEmpty_nil, if_pos rfl]
    simp [Binary.quiet, Binary.isNaN]
  · have hsome : ¬ n.digits.isEmpty = true := by rwa [List.isEmpty_iff]
    rw [if_neg hsome]
    split
    · rw [Binary.isNaN_neg, hsum]
      simp [hempty]
    · rw [hsum]
      simp [hempty]

/-- A character that stands for a digit in a radix, a letter in either case. -/
def IsDigit (radix : Nat) (c : Char) (d : Nat) : Prop :=
  d < radix ∧ (c = d.digitChar ∨ c = d.digitChar.toUpper)

theorem toNat_digitChar {d : Nat} (hd : d < 16) :
    d.digitChar.toNat = (if d < 10 then 48 + d else 87 + d) ∧
      d.digitChar.toUpper.toNat = if d < 10 then 48 + d else 55 + d := by
  revert d
  decide

theorem digit?_eq_some_iff {radix d : Nat} {c : Char} (hradix : radix ≤ 16) :
    digit? radix c = some d ↔ IsDigit radix c d := by
  rw [digit?, Option.filter_eq_some_iff, decide_eq_true_eq, IsDigit, and_comm]
  refine and_congr_right fun hd => ?_
  obtain ⟨hchar, hcapital⟩ := toNat_digitChar (d := d) (by omega)
  rw [← Char.toNat_inj, ← Char.toNat_inj, hchar, hcapital]
  by_cases hdecimal : '0' ≤ c ∧ c ≤ '9'
  · rw [if_pos hdecimal]
    change 48 ≤ c.toNat ∧ c.toNat ≤ 57 at hdecimal
    change some (c.toNat - 48) = some d ↔ _
    rw [Option.some.injEq]
    split <;> omega
  rw [if_neg hdecimal]
  change ¬ (48 ≤ c.toNat ∧ c.toNat ≤ 57) at hdecimal
  by_cases hlower : 'a' ≤ c ∧ c ≤ 'z'
  · rw [if_pos hlower]
    change 97 ≤ c.toNat ∧ c.toNat ≤ 122 at hlower
    change some (c.toNat - 97 + 10) = some d ↔ _
    rw [Option.some.injEq]
    split <;> omega
  rw [if_neg hlower]
  change ¬ (97 ≤ c.toNat ∧ c.toNat ≤ 122) at hlower
  by_cases hupper : 'A' ≤ c ∧ c ≤ 'Z'
  · rw [if_pos hupper]
    change 65 ≤ c.toNat ∧ c.toNat ≤ 90 at hupper
    change some (c.toNat - 65 + 10) = some d ↔ _
    rw [Option.some.injEq]
    split <;> omega
  · rw [if_neg hupper]
    change ¬ (65 ≤ c.toNat ∧ c.toNat ≤ 90) at hupper
    constructor
    · intro hnone
      cases hnone
    · intro hvalue
      split at hvalue <;> omega

/-- Neither a sign nor a blank is a digit. -/
theorem not_isDigit {radix : Nat} (hradix : radix ≤ 16) {c : Char}
    (hother : c = '+' ∨ c = '-' ∨ isBlank c = true) (d : Nat) : ¬ IsDigit radix c d := by
  have hnone : digit? radix c = none := by
    rcases hother with rfl | rfl | hblank
    · rfl
    · rfl
    · exact digit?_of_isBlank hblank radix
  intro hd
  rw [(digit?_eq_some_iff hradix).mpr hd] at hnone
  cases hnone

/-- Digits are read up to where there is none. -/
theorem takeDigits_append {radix : Nat} (hradix : radix ≤ 16) {run rest : List Char}
    (hdigits : ∀ c ∈ run, ∃ d, IsDigit radix c d)
    (hlongest : ∀ c ∈ rest.head?, ∀ d, ¬ IsDigit radix c d) :
    takeDigits radix (run ++ rest) = run.filterMap (digit? radix) := by
  induction run with
  | nil =>
    cases rest with
    | nil => rfl
    | cons c cs =>
      have hnone : digit? radix c = none := by
        refine Option.eq_none_iff_forall_ne_some.mpr fun d hd => ?_
        exact hlongest c rfl d ((digit?_eq_some_iff hradix).mp hd)
      rw [List.nil_append, takeDigits, hnone]
      rfl
  | cons c cs ih =>
    obtain ⟨d, hd⟩ := hdigits c List.mem_cons_self
    have hc : digit? radix c = some d := (digit?_eq_some_iff hradix).mpr hd
    rw [List.cons_append, takeDigits, hc, List.filterMap_cons_some hc]
    simp only [ih fun c' hc' => hdigits c' (List.mem_cons_of_mem c hc')]

theorem forall₂_digits {radix : Nat} (hradix : radix ≤ 16) {run : List Char}
    (hdigits : ∀ c ∈ run, ∃ d, IsDigit radix c d) :
    List.Forall₂ (IsDigit radix) run (run.filterMap (digit? radix)) := by
  induction run with
  | nil => exact .nil
  | cons c cs ih =>
    obtain ⟨d, hd⟩ := hdigits c List.mem_cons_self
    rw [List.filterMap_cons_some ((digit?_eq_some_iff hradix).mpr hd)]
    exact .cons hd (ih fun c' hc' => hdigits c' (List.mem_cons_of_mem c hc'))

/-- A text in the parts that a numeral makes of it. -/
structure Parts where
  blanks : List Char
  sign : List Char
  mark : List Char
  run : List Char
  rest : List Char

namespace Parts

def radix (p : Parts) : Nat := if p.mark = [] then 10 else 16

def afterSign (p : Parts) : List Char := p.mark ++ (p.run ++ p.rest)

def afterBlanks (p : Parts) : List Char := p.sign ++ p.afterSign

/-- The parts make up a text, and each is as long as it can be there. -/
structure Of (p : Parts) (cs : List Char) : Prop where
  whole : cs = p.blanks ++ p.afterBlanks
  blanks : ∀ c ∈ p.blanks, isBlank c = true
  visible : ∀ c ∈ p.afterBlanks.head?, isBlank c = false
  sign : p.sign = [] ∨ p.sign = ['+'] ∨ p.sign = ['-']
  unsigned : p.sign = [] → ∀ c ∈ p.afterSign.head?, c ≠ '+' ∧ c ≠ '-'
  mark : p.mark = [] ∨ p.mark = ['0', 'x'] ∨ p.mark = ['0', 'X']
  unmarked : p.mark = [] →
    ¬ ['0', 'x'] <+: p.run ++ p.rest ∧ ¬ ['0', 'X'] <+: p.run ++ p.rest
  digits : ∀ c ∈ p.run, ∃ d, IsDigit p.radix c d
  longest : ∀ c ∈ p.rest.head?, ∀ d, ¬ IsDigit p.radix c d

theorem radix_bounds (p : Parts) : 1 ≤ p.radix ∧ p.radix ≤ 16 := by
  rw [radix]
  split <;> decide

namespace Of

variable {p : Parts} {cs : List Char} (h : p.Of cs)
include h

theorem trimStart_eq : trimStart cs = p.afterBlanks := by
  rw [h.whole, trimStart, List.dropWhile_append_of_pos h.blanks]
  have hvisible := h.visible
  cases hafter : p.afterBlanks with
  | nil => rfl
  | cons c cs =>
    rw [hafter] at hvisible
    exact List.dropWhile_cons_of_neg (by rw [hvisible c rfl]; decide)

theorem takeSign_eq : takeSign p.afterBlanks = (decide (p.sign = ['-']), p.afterSign) := by
  rw [afterBlanks]
  rcases h.sign with hsign | hsign | hsign
  · have hunsigned := h.unsigned hsign
    rw [hsign, List.nil_append]
    cases hafter : p.afterSign with
    | nil => rfl
    | cons c cs =>
      rw [hafter] at hunsigned
      obtain ⟨hplus, hminus⟩ := hunsigned c rfl
      rw [takeSign_cons, if_neg hminus, if_neg hplus]
      rfl
  · rw [hsign]
    rfl
  · rw [hsign]
    rfl

theorem takeRadix_eq : takeRadix p.afterSign = (p.radix, p.run ++ p.rest) := by
  rw [afterSign, radix]
  rcases h.mark with hmark | hmark | hmark
  · obtain ⟨hx, hX⟩ := h.unmarked hmark
    rw [hmark, List.nil_append, takeRadix_of_unmarked hx hX, if_pos rfl]
  · rw [hmark]
    rfl
  · rw [hmark]
    rfl

theorem read_eq :
    read cs = ⟨decide (p.sign = ['-']), p.radix, p.run.filterMap (digit? p.radix)⟩ := by
  simp only [read, h.trimStart_eq, h.takeSign_eq, h.takeRadix_eq,
    takeDigits_append p.radix_bounds.2 h.digits h.longest]

/-- The text up to the end of the run has the same parts but the rest. -/
theorem withoutRest :
    ({ p with rest := [] } : Parts).Of (p.blanks ++ (p.sign ++ (p.mark ++ p.run))) := by
  have hrun : p.run <+: p.run ++ p.rest := List.prefix_append _ _
  have hsign : p.mark ++ p.run <+: p.afterSign := (List.prefix_append_right_inj _).mpr hrun
  have hblanks : p.sign ++ (p.mark ++ p.run) <+: p.afterBlanks :=
    (List.prefix_append_right_inj _).mpr hsign
  constructor
  · simp [afterBlanks, afterSign]
  · exact h.blanks
  · simp only [afterBlanks, afterSign, List.append_nil]
    exact fun c hc => h.visible c (head?_mono hblanks hc)
  · exact h.sign
  · simp only [afterSign, List.append_nil]
    exact fun hnone c hc => h.unsigned hnone c (head?_mono hsign hc)
  · exact h.mark
  · simp only [List.append_nil]
    intro hnone
    obtain ⟨hx, hX⟩ := h.unmarked hnone
    exact ⟨fun hx' => hx (hx'.trans hrun), fun hX' => hX (hX'.trans hrun)⟩
  · exact h.digits
  · intro c hc
    cases hc

/-- What follows a sign is a mark or a digit, or else there are no digits. -/
theorem run_eq_nil_of_head? {c : Char} (hc : c ∈ p.afterSign.head?)
    (hother : c = '+' ∨ c = '-' ∨ isBlank c = true) : p.run = [] := by
  have hzero : ¬ ('0' = '+' ∨ '0' = '-' ∨ isBlank '0' = true) := by decide
  rcases h.mark with hmark | hmark | hmark
  · cases hrun : p.run with
    | nil => rfl
    | cons first run =>
      rw [afterSign, hmark, hrun] at hc
      obtain rfl : first = c := Option.some.inj hc
      obtain ⟨d, hd⟩ := h.digits first (by rw [hrun]; exact List.mem_cons_self)
      exact absurd hd (not_isDigit p.radix_bounds.2 hother d)
  · rw [afterSign, hmark] at hc
    obtain rfl : '0' = c := Option.some.inj hc
    exact absurd hother hzero
  · rw [afterSign, hmark] at hc
    obtain rfl : '0' = c := Option.some.inj hc
    exact absurd hother hzero

end Of

theorem exists_sign (cs : List Char) :
    ∃ sign rest, cs = sign ++ rest ∧ (sign = [] ∨ sign = ['+'] ∨ sign = ['-']) ∧
      (sign = [] → ∀ c ∈ rest.head?, c ≠ '+' ∧ c ≠ '-') := by
  by_cases hplus : ['+'] <+: cs
  · obtain ⟨rest, rfl⟩ := hplus
    exact ⟨['+'], rest, rfl, .inr (.inl rfl), fun hnil => by cases hnil⟩
  by_cases hminus : ['-'] <+: cs
  · obtain ⟨rest, rfl⟩ := hminus
    exact ⟨['-'], rest, rfl, .inr (.inr rfl), fun hnil => by cases hnil⟩
  refine ⟨[], cs, rfl, .inl rfl, fun _ c hc => ?_⟩
  obtain ⟨rest, rfl⟩ := List.head?_eq_some_iff.mp hc
  constructor
  · rintro rfl
    exact hplus ⟨rest, rfl⟩
  · rintro rfl
    exact hminus ⟨rest, rfl⟩

theorem exists_mark (cs : List Char) :
    ∃ mark rest, cs = mark ++ rest ∧ (mark = [] ∨ mark = ['0', 'x'] ∨ mark = ['0', 'X']) ∧
      (mark = [] → ¬ ['0', 'x'] <+: rest ∧ ¬ ['0', 'X'] <+: rest) := by
  by_cases hx : ['0', 'x'] <+: cs
  · obtain ⟨rest, rfl⟩ := hx
    exact ⟨['0', 'x'], rest, rfl, .inr (.inl rfl), fun hnil => by cases hnil⟩
  by_cases hX : ['0', 'X'] <+: cs
  · obtain ⟨rest, rfl⟩ := hX
    exact ⟨['0', 'X'], rest, rfl, .inr (.inr rfl), fun hnil => by cases hnil⟩
  exact ⟨[], cs, rfl, .inl rfl, fun _ => ⟨hx, hX⟩⟩

/-- Every text has parts. -/
theorem exists_of (cs : List Char) : ∃ p : Parts, p.Of cs := by
  obtain ⟨blanks, afterBlanks, rfl, hblanks, hvisible⟩ := exists_span isBlank cs
  obtain ⟨sign, afterSign, rfl, hsign, hunsigned⟩ := exists_sign afterBlanks
  obtain ⟨mark, afterMark, rfl, hmark, hunmarked⟩ := exists_mark afterSign
  obtain ⟨run, rest, rfl, hrun, hrest⟩ :=
    exists_span (fun c => (digit? (if mark = [] then 10 else 16) c).isSome) afterMark
  let p : Parts := ⟨blanks, sign, mark, run, rest⟩
  have hdigit : ∀ {c d}, digit? p.radix c = some d ↔ IsDigit p.radix c d :=
    digit?_eq_some_iff p.radix_bounds.2
  refine ⟨p, rfl, hblanks, hvisible, hsign, hunsigned, hmark, hunmarked, ?_, ?_⟩
  · intro c hc
    obtain ⟨d, hd⟩ := Option.isSome_iff_exists.mp (hrun c hc)
    exact ⟨d, hdigit.mp hd⟩
  · intro c hc d hd
    have hnone := hrest c hc
    rw [show digit? (if mark = [] then 10 else 16) c = some d from hdigit.mpr hd] at hnone
    cases hnone

end Parts

end Numeral

/--
The integer at the start of any text, by the parts of the text. Reading it never cuts a text inside
a character. It is no number exactly if the run of digits is empty, as it is when a second sign or a
blank follows the sign. Otherwise it is the sum of the whole run, from the left in floating point,
with the sign of the text; the rest of the text does not matter.
-/
theorem parseInteger_by_parts (text : String) :
    (Numeral.readBytes? text).map Numeral.value = some (parseInteger text) ∧
    (∃ p : Numeral.Parts, p.Of text.toList) ∧
    ∀ p : Numeral.Parts, p.Of text.toList →
      ((parseInteger text).isNaN = true ↔ p.run = []) ∧
      (p.run ≠ [] → ∃ digits, List.Forall₂ (Numeral.IsDigit p.radix) p.run digits ∧
        let sum : Binary64 :=
          digits.foldl (fun value d => value * .ofNat p.radix + .ofNat d) (.zero false)
        parseInteger text = if p.sign = ['-'] then -sum else sum) ∧
      (p.sign ≠ [] → ∀ c ∈ p.afterSign.head?, c = '+' ∨ c = '-' ∨ isBlank c = true →
        (parseInteger text).isNaN = true) ∧
      parseInteger (String.ofList (p.blanks ++ (p.sign ++ (p.mark ++ p.run)))) =
        parseInteger text := by
  refine ⟨?_, Numeral.Parts.exists_of text.toList, fun p hp => ?_⟩
  · rw [Numeral.readBytes?_eq]
    rfl
  have hread : parseInteger text = (Numeral.mk (decide (p.sign = ['-'])) p.radix
      (p.run.filterMap (Numeral.digit? p.radix))).value := by
    rw [parseInteger, hp.read_eq]
  have hdigits := Numeral.forall₂_digits p.radix_bounds.2 hp.digits
  have hempty : p.run.filterMap (Numeral.digit? p.radix) = [] ↔ p.run = [] := by
    rw [← List.length_eq_zero_iff, ← hdigits.length_eq, List.length_eq_zero_iff]
  have hnan : (parseInteger text).isNaN = true ↔ p.run = [] := by
    rw [hread, Numeral.isNaN_value_iff p.radix_bounds.1
      (Nat.le_trans p.radix_bounds.2 (by decide)), hempty]
  refine ⟨hnan, fun hrun => ⟨_, hdigits, ?_⟩, ?_, ?_⟩
  · have hsome : ¬ (p.run.filterMap (Numeral.digit? p.radix)).isEmpty = true := by
      rwa [List.isEmpty_iff, hempty]
    rw [hread, Numeral.value, if_neg hsome]
    simp only [decide_eq_true_eq]
    rfl
  · intro _ c hc hother
    exact hnan.mpr (hp.run_eq_nil_of_head? hc hother)
  · rw [hread, parseInteger, String.toList_ofList, hp.withoutRest.read_eq]
    rfl

/-- A mark of a radix behind a blank and a sign, with a run that a letter ends. -/
theorem parseInteger_by_parts_marked :
    ∃ p : Numeral.Parts, p = ⟨['\t'], ['-'], ['0', 'X'], ['1', 'F'], ['g', '2']⟩ ∧
      p.Of "\t-0X1Fg2".toList ∧ (parseInteger "\t-0X1Fg2").isNaN = false ∧
      (∃ digits, List.Forall₂ (Numeral.IsDigit 16) ['1', 'F'] digits ∧
        parseInteger "\t-0X1Fg2" = -digits.foldl
          (fun value d => value * .ofNat 16 + .ofNat d) (.zero false)) ∧
      parseInteger "\t-0X1F" = parseInteger "\t-0X1Fg2" := by
  have hparts : (Numeral.Parts.mk ['\t'] ['-'] ['0', 'X'] ['1', 'F'] ['g', '2']).Of
      "\t-0X1Fg2".toList := by
    refine ⟨rfl, List.all_eq_true.mp rfl, ?_, .inr (.inr rfl),
      fun h => absurd h (List.cons_ne_nil _ _), .inr (.inr rfl),
      fun h => absurd h (List.cons_ne_nil _ _), ?_, ?_⟩
    · rintro _ ⟨⟩
      rfl
    · intro c hc
      rcases List.mem_pair.mp hc with rfl | rfl
      · exact ⟨1, (Numeral.digit?_eq_some_iff (by decide)).mp rfl⟩
      · exact ⟨15, (Numeral.digit?_eq_some_iff (by decide)).mp rfl⟩
    · rintro _ ⟨⟩ d hd
      cases (Numeral.digit?_eq_some_iff (by decide)).mpr hd
  obtain ⟨-, -, hall⟩ := parseInteger_by_parts "\t-0X1Fg2"
  obtain ⟨hnan, hsum, -, hrest⟩ := hall _ hparts
  refine ⟨_, rfl, hparts, ?_, hsum (List.cons_ne_nil _ _), hrest⟩
  exact Bool.eq_false_iff.mpr fun h => List.cons_ne_nil _ _ (hnan.mp h)

end PageScript
