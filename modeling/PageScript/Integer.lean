/-!
# Machine integers

A type of integers is an interval around zero, and its width gives its ends. Its successor and
its product are checked: there is none that the type does not hold.

Divisors and prime factors are found by scanning the candidates upward within a type. There are
none if the scan would leave the type.
-/

namespace PageScript

/-- A machine integer type, wide enough for the numbers up to three. -/
structure IntType where
  least : Int
  greatest : Int
  least_le : least ≤ 0
  le_greatest : 3 ≤ greatest
deriving DecidableEq, Repr

namespace IntType

theorem four_le_two_pow {k : Nat} (h : 2 ≤ k) : 4 ≤ Nat.pow 2 k :=
  Nat.pow_le_pow_right (n := 2) (by decide) h

def signed (bits : Nat) (h : 3 ≤ bits := by decide) : IntType where
  least := -(Nat.pow 2 (bits - 1) : Int)
  greatest := (Nat.pow 2 (bits - 1) : Int) - 1
  least_le := by omega
  le_greatest := by
    have := four_le_two_pow (k := bits - 1) (by omega)
    omega

def unsigned (bits : Nat) (h : 3 ≤ bits := by decide) : IntType where
  least := 0
  greatest := (Nat.pow 2 bits : Int) - 1
  least_le := Int.le_refl 0
  le_greatest := by
    have := four_le_two_pow (k := bits) (by omega)
    omega

def Holds (t : IntType) (n : Int) : Prop := t.least ≤ n ∧ n ≤ t.greatest

instance (t : IntType) (n : Int) : Decidable (t.Holds n) := inferInstanceAs (Decidable (_ ∧ _))

/-- The product, if the type holds it. -/
def mul? (t : IntType) (a b : Int) : Option Int := if t.Holds (a * b) then some (a * b) else none

/-- The next value of the type, if there is one. -/
def next? (t : IntType) (n : Int) : Option Int := if n < t.greatest then some (n + 1) else none

theorem next?_eq_some {t : IntType} {n m : Int} (h : t.next? n = some m) : m = n + 1 := by
  simp only [next?] at h
  split at h
  · exact (Option.some.inj h).symm
  · exact absurd h (by simp)

theorem next?_of_lt {t : IntType} {n : Int} (h : n < t.greatest) : t.next? n = some (n + 1) :=
  if_pos h

/-- The divisors of `n` from the candidate `i` up, after the ones found, last found first. -/
def divisorScan (t : IntType) (n i : Int) (found : List Int) : Option (List Int) :=
  if i ≤ n then
    let found := if n % i = 0 then i :: found else found
    if i = t.greatest then some found.reverse
    else
      match _next : t.next? i with
      | some j => divisorScan t n j found
      | none => none
  else some found.reverse
termination_by (n + 1 - i).toNat
decreasing_by
  have := next?_eq_some _next
  omega

/-- The divisors of a number from one up to itself, ascending. -/
def divisors (t : IntType) (n : Int) : Option (List Int) := t.divisorScan n 1 []

/--
The prime factors of `n` from the candidate `i` up to below `n`, after the ones found, last
found first. A divisor counts if none of the ones found divides it.
-/
def primeFactorScan (t : IntType) (n i : Int) (found : List Int) : Option (List Int) :=
  if i < n then
    let found := if n % i = 0 && found.all fun p => i % p != 0 then i :: found else found
    match _next : t.next? i with
    | some j => primeFactorScan t n j found
    | none => none
  else some found.reverse
termination_by (n - i).toNat
decreasing_by
  have := next?_eq_some _next
  omega

/-- The prime factors of a number that are less than the number, ascending. -/
def primeFactors (t : IntType) (n : Int) : Option (List Int) := do
  let two ← t.next? 1
  t.primeFactorScan n two []

end IntType

end PageScript
