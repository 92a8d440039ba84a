import PageScript.Fault

/-!
# Repeated actions

A repeated action is run from the state that its last run left, so whether a run succeeds depends on
all the runs before it. `Runs` is a number of runs that all succeed, and `FailsAfter` is the run
that ends a repetition.

Main statement: a repetition ends well exactly if all its runs succeed, and otherwise with the fault
and the state of the first run that fails. So a repetition can be split in two.
-/

namespace PageScript

variable {ε σ : Type} {action : EStateM ε σ Unit} {s t u : σ} {fault : ε} {k n : Nat}

/-- So many runs of an action succeed, each from the state that the one before it left. -/
inductive Runs (action : EStateM ε σ Unit) : Nat → σ → σ → Prop where
  | none (s : σ) : Runs action 0 s s
  | next {k : Nat} {s t u : σ} (hrun : action s = .ok () t) (hrest : Runs action k t u) :
    Runs action (k + 1) s u

/-- So many runs succeed, and the next one ends in a fault and leaves a state. -/
def FailsAfter (action : EStateM ε σ Unit) (k : Nat) (s : σ) (fault : ε) (u : σ) : Prop :=
  ∃ t, Runs action k s t ∧ action t = .error fault u

theorem runs_zero_iff : Runs action 0 s t ↔ s = t := by
  constructor
  · intro h
    cases h
    rfl
  · rintro rfl
    exact .none s

theorem runs_succ_iff : Runs action (k + 1) s u ↔ ∃ t, action s = .ok () t ∧ Runs action k t u := by
  constructor
  · intro h
    cases h with
    | next hrun hrest => exact ⟨_, hrun, hrest⟩
  · rintro ⟨t, hrun, hrest⟩
    exact .next hrun hrest

theorem failsAfter_zero_iff : FailsAfter action 0 s fault u ↔ action s = .error fault u := by
  simp only [FailsAfter, runs_zero_iff, exists_eq_left']

theorem failsAfter_succ_iff :
    FailsAfter action (k + 1) s fault u ↔
      ∃ t, action s = .ok () t ∧ FailsAfter action k t fault u := by
  simp only [FailsAfter, runs_succ_iff]
  constructor
  · rintro ⟨t, ⟨r, hrun, hrest⟩, hfault⟩
    exact ⟨r, hrun, t, hrest, hfault⟩
  · rintro ⟨r, hrun, t, hrest, hfault⟩
    exact ⟨t, ⟨r, hrun, hrest⟩, hfault⟩

theorem repeatNat_eq_ok_iff : repeatNat n action s = .ok () t ↔ Runs action n s t := by
  induction n generalizing s with
  | zero =>
    rw [runs_zero_iff, show repeatNat 0 action s = .ok () s from rfl]
    simp
  | succ n ih =>
    rw [runs_succ_iff]
    cases hrun : action s with
    | ok _ r =>
      rw [repeatNat_succ_of_ok hrun, ih]
      simp
    | error fault r =>
      rw [repeatNat_succ_of_error hrun]
      simp

theorem repeatNat_eq_error_iff :
    repeatNat n action s = .error fault u ↔ ∃ k < n, FailsAfter action k s fault u := by
  induction n generalizing s with
  | zero =>
    rw [show repeatNat 0 action s = .ok () s from rfl]
    simp
  | succ n ih =>
    rw [Nat.exists_lt_succ_left, failsAfter_zero_iff]
    simp only [failsAfter_succ_iff]
    cases hrun : action s with
    | ok _ r =>
      rw [repeatNat_succ_of_ok hrun, ih]
      simp
    | error fault r =>
      rw [repeatNat_succ_of_error hrun]
      simp

/-- What is left of a repetition after runs that succeed. -/
theorem Runs.repeatNat_add (h : Runs action k s t) (n : Nat) :
    repeatNat (k + n) action s = repeatNat n action t := by
  induction h with
  | none s => rw [Nat.zero_add]
  | @next k s t u hrun _ ih => rw [Nat.add_right_comm, repeatNat_succ_of_ok hrun, ih]

theorem counted_apply (action : EStateM ε σ Unit) (started : Nat) (s : σ) :
    counted action (started, s) =
      match action s with
      | .ok x t => .ok x (started + 1, t)
      | .error fault t => .error fault (started + 1, t) := by
  have hstart : counted action (started, s) =
      Effect.onPart Prod.snd (fun s p => (p.1, s)) action (started + 1, s) := rfl
  rw [hstart, Effect.onPart]
  cases action s <;> rfl

theorem counted_eq_ok_iff {c d : Nat} :
    counted action (c, s) = .ok () (d, t) ↔ action s = .ok () t ∧ d = c + 1 := by
  rw [counted_apply]
  cases action s with
  | ok _ r => simp [and_comm, eq_comm]
  | error fault r => simp

theorem counted_eq_error_iff {c d : Nat} :
    counted action (c, s) = .error fault (d, u) ↔ action s = .error fault u ∧ d = c + 1 := by
  rw [counted_apply]
  cases action s with
  | ok _ r => simp
  | error fault' r =>
    simp only [EStateM.Result.error.injEq, Prod.mk.injEq]
    constructor
    · rintro ⟨rfl, rfl, rfl⟩
      exact ⟨⟨rfl, rfl⟩, rfl⟩
    · rintro ⟨⟨rfl, rfl⟩, rfl⟩
      exact ⟨rfl, rfl, rfl⟩

/-- The count goes up by one with each run and does not change what the runs do. -/
theorem runs_counted_iff {c d : Nat} :
    Runs (counted action) k (c, s) (d, t) ↔ Runs action k s t ∧ d = c + k := by
  induction k generalizing c s with
  | zero =>
    rw [runs_zero_iff, runs_zero_iff, Prod.mk.injEq, and_comm, Nat.add_zero, eq_comm (a := d)]
  | succ k ih =>
    simp only [runs_succ_iff, Prod.exists, counted_eq_ok_iff, ih]
    constructor
    · rintro ⟨_, r, ⟨hrun, rfl⟩, hrest, rfl⟩
      exact ⟨⟨r, hrun, hrest⟩, by omega⟩
    · rintro ⟨⟨r, hrun, hrest⟩, rfl⟩
      exact ⟨c + 1, r, ⟨hrun, rfl⟩, hrest, by omega⟩

theorem failsAfter_counted_iff {c d : Nat} :
    FailsAfter (counted action) k (c, s) fault (d, u) ↔
      FailsAfter action k s fault u ∧ d = c + k + 1 := by
  simp only [FailsAfter, Prod.exists, runs_counted_iff, counted_eq_error_iff]
  constructor
  · rintro ⟨_, r, ⟨hruns, rfl⟩, hfault, rfl⟩
    exact ⟨⟨r, hruns, hfault⟩, rfl⟩
  · rintro ⟨⟨r, hruns, hfault⟩, rfl⟩
    exact ⟨c + k, r, ⟨hruns, rfl⟩, hfault, rfl⟩

/--
Repeating an action `n` times, or not at all if `n` is negative: `n.toNat` is zero then. All is well
exactly if so many runs succeed one after the other, and then that is how many are started and
theirs is the state. Else there is a first run that fails, which is the last one started, and its
fault and state are the result. A sum of two numbers repeats the action as often as the first says
and then, unless that failed, as often as the second says.
-/
theorem repeatTimes_runs_in_order (action : EStateM ε σ Unit) (n : Int) (s : σ) :
    (∀ t, repeatTimes n action s = .ok () t ↔ Runs action n.toNat s t) ∧
    (∀ fault u, repeatTimes n action s = .error fault u ↔
      ∃ k < n.toNat, FailsAfter action k s fault u) ∧
    (∀ started t, repeatTimes n (counted action) (0, s) = .ok () (started, t) ↔
      started = n.toNat ∧ repeatTimes n action s = .ok () t) ∧
    (∀ started fault u, repeatTimes n (counted action) (0, s) = .error fault (started, u) ↔
      ∃ k < n.toNat, started = k + 1 ∧ FailsAfter action k s fault u) ∧
    ∀ a b : Int, 0 ≤ a → 0 ≤ b →
      (∀ t, repeatTimes a action s = .ok () t →
        repeatTimes (a + b) action s = repeatTimes b action t) ∧
      ∀ fault u, repeatTimes a action s = .error fault u →
        repeatTimes (a + b) action s = .error fault u := by
  refine ⟨fun t => repeatNat_eq_ok_iff, fun fault u => repeatNat_eq_error_iff, ?_, ?_, ?_⟩
  · intro started t
    rw [repeatTimes, repeatTimes, repeatNat_eq_ok_iff, repeatNat_eq_ok_iff, runs_counted_iff,
      Nat.zero_add, and_comm]
  · intro started fault u
    rw [repeatTimes, repeatNat_eq_error_iff]
    simp only [failsAfter_counted_iff, Nat.zero_add, and_comm]
  · intro a b ha hb
    rw [repeatTimes, repeatTimes, Int.toNat_add ha hb]
    constructor
    · intro t hok
      exact (repeatNat_eq_ok_iff.mp hok).repeatNat_add b.toNat
    · intro fault u herror
      obtain ⟨k, hk, hfault⟩ := repeatNat_eq_error_iff.mp herror
      exact repeatNat_eq_error_iff.mpr ⟨k, by omega, hfault⟩

/-- An action that counts down, and fails when nothing is left. -/
def countDown : EStateM String Nat Unit := fun left =>
  if left = 0 then .error "nothing left" left else .ok () (left - 1)

theorem repeatTimes_runs_in_order_countDown :
    Runs countDown 2 5 3 ∧ repeatTimes 2 countDown 5 = .ok () 3 ∧
      repeatTimes (2 + 9) countDown 5 = repeatTimes 9 countDown 3 ∧
      FailsAfter countDown 5 5 "nothing left" 0 ∧
      repeatTimes 9 (counted countDown) (0, 5) = .error "nothing left" (6, 0) := by
  have hruns : Runs countDown 2 5 3 := .next rfl (.next rfl (.none 3))
  have hfails : FailsAfter countDown 5 5 "nothing left" 0 :=
    ⟨0, .next rfl (.next rfl (.next rfl (.next rfl (.next rfl (.none 0))))), rfl⟩
  have hok := ((repeatTimes_runs_in_order countDown 2 5).1 3).mpr hruns
  obtain ⟨-, -, -, hcounted, hsplit⟩ := repeatTimes_runs_in_order countDown 9 5
  exact ⟨hruns, hok, (hsplit 2 9 (by decide) (by decide)).1 3 hok, hfails,
    (hcounted 6 _ 0).mpr ⟨5, by decide, rfl, hfails⟩⟩

end PageScript
