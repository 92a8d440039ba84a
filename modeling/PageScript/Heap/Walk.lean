import PageScript.Heap.Basic

/-!
# Walks over shared lists

Lists may contain themselves, so a walk marks each list, or pair of lists, while it is under
way and does not enter it again. Walks of different kinds use different marks. Each entry of
a list takes one off the depth that the walk is given, and a walk that runs out of depth is
`none`: the number of lists bounds the depth that a walk needs.
-/

namespace PageScript

/-- That a list, or a pair of lists, is under way in a walk of some kind. -/
inductive Mark where
  | displaying (l : ListId)
  | inspecting (l : ListId)
  | comparing (a b : ListId)
deriving DecidableEq, Repr

/-- What is under way, innermost first. -/
abbrev Marks := List Mark

/-- A walk reads and changes the marks; it is `none` when its depth runs out. -/
abbrev Walk := StateT Marks Option

namespace Walk

variable {α β : Type}

/-- Runs a walk under a mark. If the mark is set already, the answer is `again`. -/
def once (mark : Mark) (again : α) (walk : Walk α) : Walk α := do
  if mark ∈ (← get) then
    return again
  else
    modify (mark :: ·)
    let a ← walk
    modify (·.erase mark)
    return a

/-- Whether a walk answers yes at every position of two lists of one length. -/
def forall₂ (walk : α → β → Walk Bool) : List α → List β → Walk Bool
  | [], [] => pure true
  | x :: xs, y :: ys => do
    if ← walk x y then forall₂ walk xs ys else return false
  | _, _ => pure false

/-- The answer of a walk that starts without marks. -/
def answer? (walk : Walk α) : Option α := (walk.run []).map Prod.fst

end Walk

end PageScript
