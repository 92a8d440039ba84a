import PageScript.Number.Numeral
import PageScript.Number.Style

/-!
# Analytic functions

Functions that the machine's mathematical library computes, on the encodings of numbers. A power may
await the name of its exponent. Names count from zero, so the name `0` is the first power, and a name
without digits gives no number.
-/

namespace PageScript

/-- The functions of one number taken from the mathematical library. -/
inductive Analytic where
  | cbrt | sin | cos | tan | ln | exp
deriving DecidableEq, Repr

namespace Binary64

def toFloat (x : Binary64) : Float := Float.ofBits (UInt64.ofNat x.toBits)

def ofFloat (x : Float) : Binary64 := Binary.ofBits x.toBits.toNat

end Binary64

namespace Binary32

def toFloat32 (x : Binary32) : Float32 := Float32.ofBits (UInt32.ofNat x.toBits)

def ofFloat32 (x : Float32) : Binary32 := Binary.ofBits x.toBits.toNat

end Binary32

def Analytic.apply64 (f : Analytic) (x : Binary64) : Binary64 :=
  let x := Binary64.toFloat x
  Binary64.ofFloat <|
    match f with
    | .cbrt => x.cbrt
    | .sin => x.sin
    | .cos => x.cos
    | .tan => x.tan
    | .ln => x.log
    | .exp => x.exp

def Analytic.apply32 (f : Analytic) (x : Binary32) : Binary32 :=
  let x := Binary32.toFloat32 x
  Binary32.ofFloat32 <|
    match f with
    | .cbrt => x.cbrt
    | .sin => x.sin
    | .cos => x.cos
    | .tan => x.tan
    | .ln => x.log
    | .exp => x.exp

/--
`base ^ exponent`. An exponent that is no number gives no number, whatever the base. A base
that is no number gives one to the power zero if it is quiet, but not if it is signaling.
-/
def power (base exponent : Binary64) : Binary64 :=
  if exponent.isNaN || base.isSignaling then .quiet
  else Binary64.ofFloat ((Binary64.toFloat base).pow (Binary64.toFloat exponent))

/-- A power of a base, to be called with the name of an exponent. -/
structure NamedPower where
  base : Binary64
deriving DecidableEq

namespace NamedPower

/-- The base to the power that a name counts from zero. -/
def call (p : NamedPower) (name : String) : Binary64 :=
  power p.base (parseInteger name + .ofNat 1)

def inspect (p : NamedPower) : String := "PowerHandle \x7b base: " ++ p.base.inspect ++ " \x7d"

end NamedPower

end PageScript
