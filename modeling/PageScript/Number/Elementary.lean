import PageScript.Binary.Arithmetic

/-!
# Elementary functions

Functions that arithmetic gives, in either format where they are of one number. Rounding to decimal
places scales a number by a power of ten, rounds it to a whole number and scales it back; negative
places divide by the power of ten instead, so that the scale is never a fraction. The factorial of a
floating-point number is the product of the numbers from it down by one while they are above one,
the least factor first. The factorial of a natural number is exact.
-/

namespace PageScript.Binary

variable {F : BinaryFormat}

def square (x : Binary F) : Binary F := x * x

def cube (x : Binary F) : Binary F := x * x * x

def reciprocal (x : Binary F) : Binary F := ofNat 1 / x

def successor (x : Binary F) : Binary F := x + ofNat 1

def predecessor (x : Binary F) : Binary F := x - ofNat 1

/-- One with the sign of a number. Zeros stay as they are. -/
def sign (x : Binary F) : Binary F :=
  if x.isNaN || x.isZero then x
  else if x.isNegative then -ofNat 1
  else ofNat 1

/-- The nearest whole number, a half upward. Infinities stay as they are. -/
def roundHalfUp (x : Binary F) : Binary F :=
  if x.isFinite then
    let lower := x.floor
    if half.atMost (x - lower) then lower + ofNat 1 else lower
  else x

end PageScript.Binary

namespace PageScript

inductive Elementary where
  | square | cube | sqrt | abs | negate | reciprocal | successor | predecessor | sign | round | floor
deriving DecidableEq, Repr

def Elementary.apply {F : BinaryFormat} : Elementary → Binary F → Binary F
  | .square => Binary.square
  | .cube => Binary.cube
  | .sqrt => Binary.sqrt
  | .abs => Binary.abs
  | .negate => Binary.neg
  | .reciprocal => Binary.reciprocal
  | .successor => Binary.successor
  | .predecessor => Binary.predecessor
  | .sign => Binary.sign
  | .round => Binary.roundHalfUp
  | .floor => Binary.floor

/-- `result * base ^ k` by repeated squaring of the base. -/
def powerLoop {F : BinaryFormat} (result base : Binary F) (k : Nat) : Binary F :=
  let result := if k % 2 = 1 then result * base else result
  if k / 2 = 0 then result else powerLoop result (base * base) (k / 2)
termination_by k
decreasing_by omega

/-- `10 ^ k` by repeated squaring. -/
def powerOfTen (k : Nat) : Binary64 := powerLoop (.ofNat 1) (.ofNat 10) k

/-- A number rounded to so many decimal places, a half upward. -/
def roundTo (x : Binary64) (places : Int) : Binary64 :=
  let scale := powerOfTen places.natAbs
  if 0 ≤ places then (x * scale).roundHalfUp / scale
  else (x / scale).roundHalfUp * scale

/-- The least whole number not below a number, and zero if that is negative or there is none. -/
def Binary.ceilNat {F : BinaryFormat} : Binary F → Nat
  | .finite s m _ => (Binary.ceilInt (F := F) s m).toNat
  | _ => 0

/-- How many of `x`, `x - 1`, `x - 2`, … are above one. -/
def factorCount (x : Binary64) : Nat :=
  if (Binary.ofNat 1).less x then (x - .ofNat 1).ceilNat else 0

/-- The product of the factors above one. Beyond 171 it is infinite. -/
def factorial (x : Binary64) : Binary64 :=
  if x.isNaN then .quiet
  else if (Binary.ofNat 171).less x then .infinite false
  else (List.range (factorCount x)).foldr (fun i product => (x - .ofNat i) * product) (.ofNat 1)

/-- `1 * 2 * … * n`. -/
def factorialExact (n : Nat) : Nat := (List.range' 2 (n - 1)).foldl (· * ·) 1

end PageScript
