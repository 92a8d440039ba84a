/-!
# Faults and effects

What can go wrong in an operation on values, lists and pages, and effects that may end in a
fault. The state reached before a fault is kept. An effect that is repeated ends at the first
fault, of whatever kind, which is passed on as it is.
-/

namespace PageScript

inductive Fault where
  | wrongType (detail : String)
  | indexOutOfBounds (index size : Nat)
  | unknownElement (name : String)
  | output (detail : String)
deriving DecidableEq, Repr

def Fault.message : Fault → String
  | .wrongType detail => "Type error: " ++ detail
  | .indexOutOfBounds index size =>
    "Index " ++ index.repr ++ " out of bounds for list of size " ++ size.repr
  | .unknownElement name => "Unknown element: " ++ name
  | .output detail => "Output error: " ++ detail

/-- A change of a state that gives a result or ends in a fault. -/
abbrev Effect (σ α : Type) := EStateM Fault σ α

namespace Effect

variable {ε σ τ α : Type}

/-- An effect on a part of a state. The rest of the state stays. -/
def onPart (get : σ → τ) (set : τ → σ → σ) (effect : EStateM ε τ α) : EStateM ε σ α := fun s =>
  match effect (get s) with
  | .ok a t => .ok a (set t s)
  | .error fault t => .error fault (set t s)

/-- A value, or the fault in its place. -/
def ofExcept : Except Fault α → Effect σ α
  | .ok a => pure a
  | .error fault => throw fault

end Effect

section Repetition

variable {ε σ : Type}

/-- Runs an effect so many times, up to the first fault. -/
def repeatNat : Nat → EStateM ε σ Unit → EStateM ε σ Unit
  | 0, _ => pure ()
  | n + 1, action => do
    action
    repeatNat n action

/-- Runs an effect so many times, none if the number is negative, up to the first fault. -/
def repeatTimes (n : Int) (action : EStateM ε σ Unit) : EStateM ε σ Unit :=
  repeatNat n.toNat action

theorem repeatNat_succ_of_ok {action : EStateM ε σ Unit} {s t : σ} (h : action s = .ok () t)
    (n : Nat) : repeatNat (n + 1) action s = repeatNat n action t := by
  rw [show repeatNat (n + 1) action = (action >>= fun _ => repeatNat n action) from rfl]
  simp only [bind, EStateM.bind, h]

theorem repeatNat_succ_of_error {action : EStateM ε σ Unit} {fault : ε} {s t : σ}
    (h : action s = .error fault t) (n : Nat) :
    repeatNat (n + 1) action s = .error fault t := by
  rw [show repeatNat (n + 1) action = (action >>= fun _ => repeatNat n action) from rfl]
  simp only [bind, EStateM.bind, h]

/-- An effect that also counts how often it is started. -/
def counted (action : EStateM ε σ Unit) : EStateM ε (Nat × σ) Unit := do
  modify fun (started, s) => (started + 1, s)
  Effect.onPart Prod.snd (fun s p => (p.1, s)) action

end Repetition

end PageScript
