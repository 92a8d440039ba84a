import PageScript.Heap.Walk

/-!
# Equality of values

Numbers are compared numerically, other leaves by content. Lists are compared element by
element up to the first difference; a pair of lists that is already being compared counts as
equal.
-/

namespace PageScript.Heap

/-- Whether two values are equal, by a walk of limited depth. -/
def equalWalk (h : Heap) : Nat → Value → Value → Walk Bool
  | _, .number x, .number y => pure (x.equal y)
  | _, .text s, .text t => pure (s == t)
  | _, .boolean a, .boolean b => pure (a == b)
  | _, .element i, .element j => pure (i == j)
  | _, .null, .null => pure true
  | 0, .list _, .list _ => failure
  | depth + 1, .list a, .list b =>
    Walk.once (.comparing a b) true <|
      if h.size a = h.size b then
        Walk.forall₂ (fun v w => equalWalk h depth v w) (h.elements a) (h.elements b)
      else pure false
  | _, _, _ => pure false

def equal (h : Heap) (v w : Value) : Bool :=
  (h.equalWalk (h.listCount * h.listCount + 1) v w).answer?.getD false

/-- The first position in a list of an element equal to a value. -/
def position? (h : Heap) (l : ListId) (v : Value) : Option Nat :=
  (h.elements l).findIdx? fun w => h.equal w v

/-- The first position in a list of an element equal to a value, or -1. -/
def indexOf (h : Heap) (l : ListId) (v : Value) : Int :=
  match h.position? l v with
  | some i => i
  | none => -1

end PageScript.Heap
