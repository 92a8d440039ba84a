import PageScript.Binary.Arithmetic
import PageScript.Text

/-!
# Integers at the start of a text

A numeral is a sign, a radix and a run of digits, read off the start of a text after its
blanks. What follows the run is ignored. The value is summed up in floating point digit by
digit, so a long run rounds at each step and a very long one is infinite; an empty run is
no number.
-/

namespace PageScript

/-- A sign, a radix and the digits of a run. -/
structure Numeral where
  negative : Bool
  radix : Nat
  digits : List Nat
deriving DecidableEq, Repr

namespace Numeral

/-- The value of an ASCII digit or letter as a digit of a radix. -/
def digit? (radix : Nat) (c : Char) : Option Nat :=
  let value? :=
    if '0' ≤ c ∧ c ≤ '9' then some (c.toNat - '0'.toNat)
    else if 'a' ≤ c ∧ c ≤ 'z' then some (c.toNat - 'a'.toNat + 10)
    else if 'A' ≤ c ∧ c ≤ 'Z' then some (c.toNat - 'A'.toNat + 10)
    else none
  value?.filter (· < radix)

/-- At most one sign, and what follows it. -/
def takeSign : List Char → Bool × List Char
  | '-' :: rest => (true, rest)
  | '+' :: rest => (false, rest)
  | cs => (false, cs)

/-- The radix that a mark announces, and what follows the mark. -/
def takeRadix : List Char → Nat × List Char
  | '0' :: 'x' :: rest => (16, rest)
  | '0' :: 'X' :: rest => (16, rest)
  | cs => (10, cs)

/-- The longest run of digits at the start. -/
def takeDigits (radix : Nat) : List Char → List Nat
  | [] => []
  | c :: cs =>
    match digit? radix c with
    | some d => d :: takeDigits radix cs
    | none => []

def read (cs : List Char) : Numeral :=
  let (negative, unsigned) := takeSign (trimStart cs)
  let (radix, rest) := takeRadix unsigned
  ⟨negative, radix, takeDigits radix rest⟩

/-- The value of a run of digits, summed up from the left. -/
def sum (radix : Nat) (digits : List Nat) : Binary64 :=
  digits.foldl (fun value d => value * .ofNat radix + .ofNat d) (.zero false)

def value (n : Numeral) : Binary64 :=
  if n.digits.isEmpty then .quiet
  else if n.negative then -sum n.radix n.digits
  else sum n.radix n.digits

end Numeral

/-- The integer at the start of a text, or no number. -/
def parseInteger (text : String) : Binary64 := (Numeral.read text.toList).value

end PageScript
