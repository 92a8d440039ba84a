import PageScript.Binary.Basic

/-!
# Decimals

A decimal is a whole coefficient times a power of ten. `Decimal.quotient` counts it in units
of a binary format as a quotient of naturals, so that reading a decimal is one rounding.

Of the decimals that read back as a magnitude, the shortest lies on the coarsest grid of
powers of ten that has one. If a point of a grid reads back, so does one of the magnitude's
two neighbours on it, so the search looks at these two, grid after grid.
-/

namespace PageScript

/-- `coefficient * 10 ^ exponent`. -/
structure Decimal where
  coefficient : Nat
  exponent : Int
deriving DecidableEq, Repr

namespace Decimal

/-- The decimal in units of a format, as numerator and denominator. -/
def quotient (F : BinaryFormat) (d : Decimal) : Nat × Nat :=
  (d.coefficient * Nat.pow 10 d.exponent.toNat * F.one, Nat.pow 10 (-d.exponent).toNat)

def nearest (F : BinaryFormat) (d : Decimal) : Nat :=
  F.nearest (d.quotient F).1 (d.quotient F).2

/-- The same decimal with no zero at the end of its coefficient. -/
def strip (d : Decimal) : Decimal :=
  if d.coefficient ≠ 0 ∧ d.coefficient % 10 = 0 then
    strip ⟨d.coefficient / 10, d.exponent + 1⟩
  else d
termination_by d.coefficient
decreasing_by omega

end Decimal

/-- The number nearest to a decimal, with the sign given. -/
def Binary.ofDecimal {F : BinaryFormat} (negative : Bool) (d : Decimal) : Binary F :=
  Binary.round negative (d.quotient F).1 (d.quotient F).2

end PageScript

namespace PageScript.Decimal

variable (F : BinaryFormat)

/-- The magnitude in steps of `10 ^ exponent`, as numerator and denominator. -/
def steps (magnitude : Nat) (exponent : Int) : Nat × Nat :=
  (magnitude * Nat.pow 10 (-exponent).toNat, F.one * Nat.pow 10 exponent.toNat)

/--
The neighbour of the magnitude on the grid of `10 ^ exponent` that reads back. If both do,
the nearer one, and the upper one when they are equally near.
-/
def neighbour? (magnitude : Nat) (exponent : Int) : Option Decimal :=
  let (n, d) := steps F magnitude exponent
  let lower : Decimal := ⟨n / d, exponent⟩
  let upper : Decimal := ⟨n / d + 1, exponent⟩
  let readsBack (c : Decimal) : Bool := c.nearest F == magnitude
  if readsBack lower && (2 * (n % d) < d || !readsBack upper) then some lower
  else if readsBack upper then some upper
  else none

/-- The first grid with a neighbour that reads back, among so many from an exponent down. -/
def search (magnitude : Nat) : Nat → Int → Option Decimal
  | 0, _ => none
  | grids + 1, exponent =>
    match neighbour? F magnitude exponent with
    | some d => some d
    | none => search magnitude grids (exponent - 1)

/-- The power of ten at the first digit of a positive magnitude. -/
def leadingExponent (magnitude : Nat) : Int :=
  if F.one ≤ magnitude then ((Nat.toDigits 10 (magnitude / F.one)).length : Int) - 1
  else -((Nat.toDigits 10 ((F.one - 1) / magnitude)).length : Int)

/-- The decimal equal to a magnitude. -/
def exact (magnitude : Nat) : Decimal :=
  ⟨magnitude * Nat.pow 5 F.one.log2, -(F.one.log2 : Int)⟩

/-- The shortest decimal that reads back as a positive magnitude, the nearest of those. -/
def shortest (magnitude : Nat) : Decimal :=
  ((search F magnitude 17 (leadingExponent F magnitude)).getD (exact F magnitude)).strip

end PageScript.Decimal
