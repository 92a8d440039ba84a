import PageScript.Binary.Format

/-!
# Floating-point numbers

A `Binary F` is a number of the format `F`: none at all, an infinity, or a sign with a
magnitude counted in units of the format. Arithmetic is exact on naturals and then rounded
once by `Binary.round`. Order and equality are those of the signed magnitudes, so both zeros
are equal and a number that is none is not even equal to itself.

A number that is none is quiet or signaling. Arithmetic always gives the quiet one, and only a
few functions treat the two differently.
-/

namespace PageScript

/-- A number of a binary format. -/
inductive Binary (F : BinaryFormat) where
  | nan (signaling : Bool)
  | infinite (negative : Bool)
  | finite (negative : Bool) (magnitude : Nat) (fits : F.Fits magnitude)
deriving DecidableEq

abbrev Binary64 := Binary .binary64

abbrev Binary32 := Binary .binary32

namespace Binary

variable {F : BinaryFormat}

/-- The number nearest to `n / d` units, with the sign given. Too large is infinite. -/
def round (negative : Bool) (n d : Nat) : Binary F :=
  let m := F.nearest n d
  if h : m < F.limit then .finite negative m ⟨F.nearest_onGrid n d, h⟩ else .infinite negative

/-- A whole number of units, rounded. Zero comes out positive. -/
def ofUnits (units : Int) : Binary F := round (units < 0) units.natAbs 1

/-- The quiet number that is none. -/
def quiet : Binary F := .nan false

def zero (negative : Bool) : Binary F := .finite negative 0 F.fits_zero

def ofNat (n : Nat) : Binary F := round false (n * F.one) 1

def ofInt (n : Int) : Binary F := ofUnits (n * F.one)

def half : Binary F := round false F.one 2

/-- The sign, also of zeros and infinities. A number that is none has no sign. -/
def isNegative : Binary F → Bool
  | .nan _ => false
  | .infinite s => s
  | .finite s _ _ => s

def isNaN : Binary F → Bool
  | .nan _ => true
  | _ => false

def isSignaling : Binary F → Bool
  | .nan signaling => signaling
  | _ => false

def isFinite : Binary F → Bool
  | .finite _ _ _ => true
  | _ => false

/-- The signed magnitude of a finite number. -/
def signed (negative : Bool) (magnitude : Nat) : Int :=
  if negative then -(magnitude : Int) else magnitude

/--
The place of a number in the order of the line: its signed magnitude, with the infinities
just beyond the finite numbers. A number that is none has no place.
-/
def rank? : Binary F → Option Int
  | .nan _ => none
  | .infinite s => some (signed s F.limit)
  | .finite s m _ => some (signed s m)

def equal (x y : Binary F) : Bool :=
  match x.rank?, y.rank? with
  | some a, some b => a == b
  | _, _ => false

def less (x y : Binary F) : Bool :=
  match x.rank?, y.rank? with
  | some a, some b => decide (a < b)
  | _, _ => false

def atMost (x y : Binary F) : Bool :=
  match x.rank?, y.rank? with
  | some a, some b => decide (a ≤ b)
  | _, _ => false

def isZero (x : Binary F) : Bool := x.equal (zero false)

/--
The interchange encoding. A number that is none has the first bit of the fraction set if it is
quiet and the last if it is signaling.
-/
def toBits : Binary F → Nat
  | .nan signaling =>
    F.topField * Nat.pow 2 F.fractionBits +
      if signaling then 1 else Nat.pow 2 (F.fractionBits - 1)
  | .infinite s =>
    s.toNat * Nat.pow 2 (F.fractionBits + F.exponentBits) + F.topField * Nat.pow 2 F.fractionBits
  | .finite s m _ =>
    s.toNat * Nat.pow 2 (F.fractionBits + F.exponentBits) +
      F.gridExponent m * Nat.pow 2 F.fractionBits + m / F.spacing m

/--
The number that an interchange encoding stands for. Of a number that is none only the first
bit of the fraction counts, and bits beyond the width are ignored.
-/
def ofBits (bits : Nat) : Binary F :=
  let fraction := bits % Nat.pow 2 F.fractionBits
  let field := bits / Nat.pow 2 F.fractionBits % Nat.pow 2 F.exponentBits
  let negative := bits / Nat.pow 2 (F.fractionBits + F.exponentBits) % 2 == 1
  if field = F.topField then
    if fraction = 0 then .infinite negative else .nan (fraction < Nat.pow 2 (F.fractionBits - 1))
  else if field = 0 then round negative fraction 1
  else round negative ((Nat.pow 2 F.fractionBits + fraction) * Nat.pow 2 (field - 1)) 1

end Binary

end PageScript
