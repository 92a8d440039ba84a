import PageScript.Decimal

/-!
# Texts of numbers

A number is written with its shortest digits, positionally between two bounds and with an
exponent outside them. A `NumberStyle` fixes the bounds and the spellings.
-/

namespace PageScript

/-- The choices in writing a number. -/
structure NumberStyle where
  nan : String
  infinity : String
  /-- Whether the sign of a negative zero is written. -/
  signedZero : Bool
  /-- The least magnitude written positionally. -/
  positionalFrom : Decimal
  /-- The least magnitude above, written with an exponent. -/
  positionalBelow : Decimal
  /-- What follows the digits of a whole number written positionally. -/
  wholeMark : String
  /-- The sign of an exponent that is not negative. -/
  exponentPlus : String

namespace NumberStyle

/-- The digits with the point where the exponent puts it. -/
def positional (style : NumberStyle) (digits : List Char) (exponent : Int) : List Char :=
  let whole := (digits.length : Int) + exponent
  if 0 ≤ exponent then
    digits ++ List.replicate exponent.toNat '0' ++ style.wholeMark.toList
  else if 0 < whole then
    digits.take whole.toNat ++ '.' :: digits.drop whole.toNat
  else
    '0' :: '.' :: List.replicate (-whole).toNat '0' ++ digits

/-- One digit before the point, and the exponent of that digit. -/
def scientific (style : NumberStyle) (digits : List Char) (exponent : Int) : List Char :=
  let leading := exponent + digits.length - 1
  let fraction := if digits.length ≤ 1 then [] else '.' :: digits.drop 1
  let sign := if leading < 0 then ['-'] else style.exponentPlus.toList
  digits.take 1 ++ fraction ++ 'e' :: sign ++ Nat.toDigits 10 leading.natAbs

/-- Whether a magnitude lies between the bounds of positional writing. -/
def isPositional (style : NumberStyle) (F : BinaryFormat) (magnitude : Nat) : Bool :=
  style.positionalFrom.nearest F ≤ magnitude && magnitude < style.positionalBelow.nearest F

/-- A positive magnitude in the digits of a decimal. -/
def magnitudeText (style : NumberStyle) (F : BinaryFormat) (magnitude : Nat) : List Char :=
  let d := Decimal.shortest F magnitude
  let digits := Nat.toDigits 10 d.coefficient
  if style.isPositional F magnitude then style.positional digits d.exponent
  else style.scientific digits d.exponent

def write (style : NumberStyle) {F : BinaryFormat} : Binary F → String
  | .nan _ => style.nan
  | .infinite s => (if s then "-" else "") ++ style.infinity
  | .finite s m _ =>
    if m = 0 then (if s && style.signedZero then "-0" else "0") ++ style.wholeMark
    else String.ofList ((if s then ['-'] else []) ++ style.magnitudeText F m)

/--
Numbers for readers: positional from a millionth up to below 10^21, no fraction for whole
numbers, a sign at every exponent, one text for both zeros.
-/
def plain : NumberStyle where
  nan := "NaN"
  infinity := "Infinity"
  signedZero := false
  positionalFrom := ⟨1, -6⟩
  positionalBelow := ⟨1, 21⟩
  wholeMark := ""
  exponentPlus := "+"

open BinaryFormat (binary64)

theorem positionalFrom_le_one : plain.positionalFrom.nearest binary64 ≤ binary64.one := by
  decide +kernel

theorem isPositional_of_one_le {m : Nat} (hmin : binary64.one ≤ m)
    (hmax : m < plain.positionalBelow.nearest binary64) :
    plain.isPositional binary64 m = true := by
  rw [isPositional, decide_eq_true (Nat.le_trans positionalFrom_le_one hmin),
    decide_eq_true hmax]
  rfl

/--
Numbers for inspection: positional from a ten-thousandth up to below 10^16, always with a
fraction there, and the sign of zero shown.
-/
def inspection : NumberStyle where
  nan := "NaN"
  infinity := "inf"
  signedZero := true
  positionalFrom := ⟨1, -4⟩
  positionalBelow := ⟨1, 16⟩
  wholeMark := ".0"
  exponentPlus := ""

end NumberStyle

def Binary.text {F : BinaryFormat} (x : Binary F) : String := NumberStyle.plain.write x

def Binary.inspect {F : BinaryFormat} (x : Binary F) : String := NumberStyle.inspection.write x

end PageScript
