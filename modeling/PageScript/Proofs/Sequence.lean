import PageScript.Fault

/-!
# Actions in order

Actions that are run in order all succeed, or stop at the first that fails. `Succeeds` and
`Stops` say what either means for the state: each action starts from what the one before it left,
and what the failing one has done stays done. Which actions were started is told by `recorded`.
-/

namespace PageScript.Effect

variable {α σ : Type} {run : α → Effect σ Unit} {actions before rest ran : List α} {s t u : σ}
  {fault : Fault}

/-- Every action succeeds, from the state that the one before it left. -/
inductive Succeeds (run : α → Effect σ Unit) : List α → σ → σ → Prop where
  | nil (s : σ) : Succeeds run [] s s
  | cons {a : α} {rest : List α} {s t u : σ} (ha : run a s = .ok () t)
    (hrest : Succeeds run rest t u) : Succeeds run (a :: rest) s u

/-- Actions up to the first that fails, and the state that it leaves. -/
inductive Stops (run : α → Effect σ Unit) : List α → σ → List α → Fault → σ → Prop where
  | failing {before rest : List α} {a : α} {s t u : σ} {fault : Fault}
    (hbefore : Succeeds run before s t) (ha : run a t = .error fault u) :
    Stops run (before ++ a :: rest) s (before ++ [a]) fault u

theorem succeeds_or_stops (run : α → Effect σ Unit) (actions : List α) (s : σ) :
    (∃ t, Succeeds run actions s t) ∨ ∃ ran fault u, Stops run actions s ran fault u := by
  induction actions generalizing s with
  | nil => exact .inl ⟨s, .nil s⟩
  | cons a rest ih =>
    cases ha : run a s with
    | error fault u => exact .inr ⟨[a], fault, u, .failing (.nil s) ha⟩
    | ok x t =>
      rcases ih t with ⟨u, hu⟩ | ⟨ran, fault, u, hstops⟩
      · exact .inl ⟨u, .cons ha hu⟩
      · obtain ⟨hbefore, hb⟩ := hstops
        exact .inr ⟨_, fault, u, .failing (.cons ha hbefore) hb⟩

theorem forM_cons_of_ok {a : α} (ha : run a s = .ok () t) :
    (a :: rest).forM run s = rest.forM run t := by
  rw [show (a :: rest).forM run = (run a >>= fun _ => rest.forM run) from rfl]
  simp only [bind, EStateM.bind, ha]

theorem forM_cons_of_error {a : α} (ha : run a s = .error fault u) :
    (a :: rest).forM run s = .error fault u := by
  rw [show (a :: rest).forM run = (run a >>= fun _ => rest.forM run) from rfl]
  simp only [bind, EStateM.bind, ha]

theorem Succeeds.forM_append (h : Succeeds run before s t) :
    (before ++ rest).forM run s = rest.forM run t := by
  induction h with
  | nil s => rfl
  | cons ha _ ih => rw [List.cons_append, forM_cons_of_ok ha, ih]

theorem Succeeds.forM (h : Succeeds run actions s t) : actions.forM run s = .ok () t := by
  rw [← List.append_nil actions, h.forM_append]
  rfl

theorem Stops.forM (h : Stops run actions s ran fault u) :
    actions.forM run s = .error fault u := by
  obtain ⟨hbefore, ha⟩ := h
  rw [hbefore.forM_append, forM_cons_of_error ha]

/-- An action that also records that it is started. -/
def recorded (run : α → Effect σ Unit) (a : α) : Effect (List α × σ) Unit := do
  modify fun (started, s) => (started ++ [a], s)
  onPart Prod.snd (fun s p => (p.1, s)) (run a)

theorem recorded_apply (run : α → Effect σ Unit) (a : α) (started : List α) (s : σ) :
    recorded run a (started, s) =
      match run a s with
      | .ok x t => .ok x (started ++ [a], t)
      | .error fault t => .error fault (started ++ [a], t) := by
  have hstart : recorded run a (started, s) =
      onPart Prod.snd (fun s p => (p.1, s)) (run a) (started ++ [a], s) := rfl
  rw [hstart, onPart]
  cases run a s <;> rfl

theorem recorded_of_ok {a : α} (ha : run a s = .ok () t) (started : List α) :
    recorded run a (started, s) = .ok () (started ++ [a], t) := by
  rw [recorded_apply, ha]

theorem recorded_of_error {a : α} (ha : run a s = .error fault u) (started : List α) :
    recorded run a (started, s) = .error fault (started ++ [a], u) := by
  rw [recorded_apply, ha]

theorem Succeeds.recorded (h : Succeeds run actions s t) (started : List α) :
    Succeeds (recorded run) actions (started, s) (started ++ actions, t) := by
  induction h generalizing started with
  | nil s =>
    rw [List.append_nil]
    exact .nil _
  | @cons a rest s t u ha _ ih =>
    refine .cons (recorded_of_ok ha started) ?_
    have hrest := ih (started ++ [a])
    rwa [List.append_assoc, List.singleton_append] at hrest

theorem Stops.recorded (h : Stops run actions s ran fault u) (started : List α) :
    Stops (recorded run) actions (started, s) ran fault (started ++ ran, u) := by
  obtain ⟨hbefore, ha⟩ := h
  refine .failing (hbefore.recorded started) ?_
  rw [← List.append_assoc]
  exact recorded_of_error ha _

end PageScript.Effect
