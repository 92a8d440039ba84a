import PageScript.Binary.Basic

/-!
# Arithmetic of floating-point numbers

Each operation is the exact result, rounded once. A sum that cancels is the positive zero;
a sum of two negative zeros stays negative.
-/

namespace PageScript.Binary

variable {F : BinaryFormat}

def neg : Binary F → Binary F
  | .nan signaling => .nan signaling
  | .infinite s => .infinite !s
  | .finite s m h => .finite (!s) m h

def abs : Binary F → Binary F
  | .nan signaling => .nan signaling
  | .infinite _ => .infinite false
  | .finite _ m h => .finite false m h

def add : Binary F → Binary F → Binary F
  | .nan _, _ => quiet
  | _, .nan _ => quiet
  | .infinite s, .infinite t => if s = t then .infinite s else quiet
  | .infinite s, .finite _ _ _ => .infinite s
  | .finite _ _ _, .infinite t => .infinite t
  | .finite s m _, .finite t n _ =>
    let sum := signed s m + signed t n
    if sum = 0 then zero (s && t) else ofUnits sum

def sub (x y : Binary F) : Binary F := x.add y.neg

def mul : Binary F → Binary F → Binary F
  | .nan _, _ => quiet
  | _, .nan _ => quiet
  | .infinite s, .infinite t => .infinite (s ^^ t)
  | .infinite s, .finite t n _ => if n = 0 then quiet else .infinite (s ^^ t)
  | .finite s m _, .infinite t => if m = 0 then quiet else .infinite (s ^^ t)
  | .finite s m _, .finite t n _ => round (s ^^ t) (m * n) F.one

def div : Binary F → Binary F → Binary F
  | .nan _, _ => quiet
  | _, .nan _ => quiet
  | .infinite _, .infinite _ => quiet
  | .infinite s, .finite t _ _ => .infinite (s ^^ t)
  | .finite s _ _, .infinite t => zero (s ^^ t)
  | .finite s m _, .finite t n _ =>
    if n = 0 then if m = 0 then quiet else .infinite (s ^^ t)
    else round (s ^^ t) (m * F.one) n

/--
Square root. The whole root of the magnitude in units is taken with one more bit, set
unless the root is exact. It lies between the same neighbours and half way points of the
grid as the true root, so it rounds to the same number.
-/
def sqrt : Binary F → Binary F
  | .nan _ => quiet
  | .infinite s => if s then quiet else .infinite s
  | .finite s m h =>
    if m = 0 then .finite s m h
    else if s then quiet
    else
      let square := m * F.one
      let root := square.sqrt
      round false (2 * root + if root * root = square then 0 else 1) 2

/-- The greatest whole number below or at a finite number. -/
def floorInt (negative : Bool) (magnitude : Nat) : Int :=
  signed negative magnitude / (F.one : Int)

/-- The least whole number above or at a finite number. -/
def ceilInt (negative : Bool) (magnitude : Nat) : Int :=
  -(signed (!negative) magnitude / (F.one : Int))

/-- The greatest whole number not above a number. Zeros and infinities stay. -/
def floor : Binary F → Binary F
  | .nan _ => quiet
  | .infinite s => .infinite s
  | .finite s m h => if m = 0 then .finite s m h else ofInt (floorInt (F := F) s m)

instance : Neg (Binary F) := ⟨neg⟩
instance : Add (Binary F) := ⟨add⟩
instance : Sub (Binary F) := ⟨sub⟩
instance : Mul (Binary F) := ⟨mul⟩
instance : Div (Binary F) := ⟨div⟩

end PageScript.Binary
