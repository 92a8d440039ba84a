import PageScript.Proofs.Sequence
import PageScript.Script.Act

/-!
# The loop that reads numbers

Each round asks for a number and puts it at the end of a list; an answer that is no number ends
the loop with a fault. That answer is used up and its question is asked, but nothing is put into
the list. An empty queue answers the empty text, which is no number either, so the loop also ends
when the answers do.

Main statement: a loop that asks no more often than there are numbers at the start of the queue
reads so many of them, and any other one reads those numbers, asks once more and stops.
-/

namespace PageScript.Script

open Effect (forM_cons_of_ok forM_cons_of_error)

/-- A loop that reads numbers: what its rounds work on, what they ask and how they fail. -/
structure ReadLoop where
  prompt : PromptId
  cell : CellId
  list : ListId
  message : String
  fault : Fault

/-- Whether an answer is a number. -/
def isNumeral (answer : String) : Bool := !(parseInteger answer).isNaN

/-- How many answers from the oldest on are numbers. -/
def leadingNumerals (answers : List String) : Nat := (answers.takeWhile isNumeral).length

theorem isNumeral_empty : isNumeral "" = false := rfl

theorem leadingNumerals_le (answers : List String) : leadingNumerals answers ≤ answers.length :=
  (List.takeWhile_prefix _).length_le

theorem isNumeral_of_lt {answers : List String} {k : Nat} (hk : k < leadingNumerals answers) :
    isNumeral (answers.getD k "") = true := by
  induction answers generalizing k with
  | nil => exact absurd hk (Nat.not_lt_zero k)
  | cons answer answers ih =>
    by_cases hanswer : isNumeral answer = true
    · rw [leadingNumerals, List.takeWhile_cons_of_pos hanswer, List.length_cons] at hk
      cases k with
      | zero => exact hanswer
      | succ k => exact ih (Nat.lt_of_succ_lt_succ hk)
    · rw [leadingNumerals, List.takeWhile_cons_of_neg hanswer] at hk
      exact absurd hk (Nat.not_lt_zero k)

/-- The answer after them is none, be it one of the queue or the empty text. -/
theorem isNumeral_leadingNumerals (answers : List String) :
    isNumeral (answers.getD (leadingNumerals answers) "") = false := by
  induction answers with
  | nil => exact isNumeral_empty
  | cons answer answers ih =>
    by_cases hanswer : isNumeral answer = true
    · rw [leadingNumerals, List.takeWhile_cons_of_pos hanswer]
      exact ih
    · rw [leadingNumerals, List.takeWhile_cons_of_neg hanswer]
      exact Bool.eq_false_iff.mpr hanswer

namespace ReadLoop

variable (r : ReadLoop)

/-- One round: asks into the cell, and appends what the cell then holds if that is a number. -/
def body : Effect Store Unit := do
  modify fun s => s.readInto r.prompt r.cell r.message
  match (← get).cells.get? r.cell with
  | some (.number x) =>
    if x.isNaN then throw r.fault else Act.onHeap (·.append r.list (.number x))
  | _ => throw r.fault

/-- The round as a script has it. -/
def acts : Action :=
  [.read r.prompt r.cell r.message, .requireNumber r.cell, .appendCell r.list r.cell]

/-- The store has what the loop works on. -/
structure In (s : Store) : Prop where
  prompt : r.prompt.index < s.prompts.size
  cell : r.cell.index < s.cells.count
  list : r.list.index < s.heap.listCount

/-- What so many questions, and so many numbers appended, have made of a store. -/
structure Leaves (s : Store) (questions appended : Nat) (t : Store) : Prop where
  asked : (t.prompt r.prompt).asked =
    (s.prompt r.prompt).asked ++ List.replicate questions r.message
  answers : (t.prompt r.prompt).answers = (s.prompt r.prompt).answers.drop questions
  elements : t.heap.elements r.list = s.heap.elements r.list ++
    ((s.prompt r.prompt).answers.take appended).map fun answer => .number (parseInteger answer)
  /-- The cell holds the last answer, be it a number or not. -/
  cell : t.cells.get? r.cell =
    if questions = 0 then s.cells.get? r.cell
    else some (.number (parseInteger ((s.prompt r.prompt).answers.getD (questions - 1) "")))
  prompts : ∀ p, p ≠ r.prompt → t.prompt p = s.prompt p
  lists : ∀ l, l ≠ r.list → t.heap.elements l = s.heap.elements l
  cells : ∀ c, c ≠ r.cell → t.cells.get? c = s.cells.get? c
  counters : t.counters = s.counters

/-- The store after a question. -/
def ask (s : Store) : Store := s.readInto r.prompt r.cell r.message

/-- The store after a number is appended. -/
def append (x : Binary64) (s : Store) : Store :=
  { s with heap := s.heap.append r.list (.number x) }

/-- The number of the next answer. -/
def nextNumber (s : Store) : Binary64 := parseInteger ((s.prompt r.prompt).answers.headD "")

variable {r} {s t : Store} {questions appended k : Nat}

theorem In.ask (h : r.In s) : r.In (r.ask s) := by
  refine ⟨?_, ?_, h.list⟩
  · exact Nat.lt_of_lt_of_eq h.prompt Array.size_modify.symm
  · exact Nat.lt_of_lt_of_eq h.cell Array.size_modify.symm

theorem In.append (h : r.In s) (x : Binary64) : r.In (r.append x s) := by
  refine ⟨h.prompt, h.cell, ?_⟩
  exact Nat.lt_of_lt_of_eq h.list (s.heap.listCount_update r.list _).symm

theorem In.prompt_ask (h : r.In s) :
    (r.ask s).prompt r.prompt = (Scripted.ask r.message (s.prompt r.prompt)).2 :=
  s.prompt_setPrompt _ h.prompt

theorem In.get?_ask (h : r.In s) :
    (r.ask s).cells.get? r.cell = some (.number (r.nextNumber s)) :=
  s.cells.get?_put _ h.cell

/-- A round asks, and appends if the answer is a number. -/
theorem In.body_apply (h : r.In s) :
    r.body s =
      if (r.nextNumber s).isNaN then .error r.fault (r.ask s)
      else .ok () (r.append (r.nextNumber s) (r.ask s)) := by
  show (match (r.ask s).cells.get? r.cell with
    | some (.number x) =>
      if x.isNaN then throw r.fault else Act.onHeap (·.append r.list (.number x))
    | _ => throw r.fault : Effect Store Unit) (r.ask s) = _
  rw [h.get?_ask]
  show (if (r.nextNumber s).isNaN then throw r.fault
    else Act.onHeap (·.append r.list (.number (r.nextNumber s))) : Effect Store Unit) (r.ask s) = _
  split <;> rfl

theorem run_requireNumber {c : CellId} {x : Binary64} (h : s.cells.get? c = some (.number x)) :
    (Act.requireNumber c).run s =
      if x.isNaN then .error (.wrongType "not a number") s else .ok () s := by
  have hnumber : Act.numberIn c s = .ok x s := by
    show (Effect.ofExcept (s.cells.value c).asNumber : Effect Store Binary64) s = _
    rw [Cells.value, h]
    rfl
  rw [show (Act.requireNumber c).run = (Act.numberIn c >>= fun n =>
    if n.isNaN then throw (.wrongType "not a number") else pure ()) from rfl]
  simp only [bind, EStateM.bind, hnumber]
  split <;> rfl

/-- A script's round does the same, with its own fault. -/
theorem In.run_acts (h : r.In s) (hfault : r.fault = .wrongType "not a number") :
    Action.run r.acts s = r.body s := by
  have hask : (Act.read r.prompt r.cell r.message).run s = .ok () (r.ask s) := rfl
  have hrequire := run_requireNumber h.get?_ask
  rw [h.body_apply, Action.run, acts, forM_cons_of_ok hask]
  by_cases hnan : (r.nextNumber s).isNaN = true
  · rw [if_pos hnan] at hrequire ⊢
    rw [forM_cons_of_error hrequire, hfault]
  · rw [if_neg hnan] at hrequire ⊢
    have happend : (Act.appendCell r.list r.cell).run (r.ask s) =
        .ok () (r.append (r.nextNumber s) (r.ask s)) := by
      show EStateM.Result.ok () { r.ask s with
        heap := (r.ask s).heap.append r.list ((r.ask s).cells.value r.cell) } = _
      rw [Cells.value, h.get?_ask]
      rfl
    rw [forM_cons_of_ok hrequire, forM_cons_of_ok happend]
    rfl

theorem In.body_ok (h : r.In s) (hbody : r.body s = .ok () t) : r.In t := by
  rw [h.body_apply] at hbody
  split at hbody
  · cases hbody
  · cases hbody
    exact h.ask.append _

theorem In.repeatNat_acts (h : r.In s) (hfault : r.fault = .wrongType "not a number") (n : Nat) :
    repeatNat n (Action.run r.acts) s = repeatNat n r.body s := by
  induction n generalizing s with
  | zero => rfl
  | succ n ih =>
    cases hbody : r.body s with
    | ok x t =>
      have hacts : Action.run r.acts s = .ok () t := (h.run_acts hfault).trans hbody
      rw [repeatNat_succ_of_ok hacts, repeatNat_succ_of_ok hbody, ih (h.body_ok hbody)]
    | error fault t =>
      have hacts : Action.run r.acts s = .error fault t := (h.run_acts hfault).trans hbody
      rw [repeatNat_succ_of_error hacts, repeatNat_succ_of_error hbody]

namespace Leaves

theorem start (r : ReadLoop) (s : Store) : r.Leaves s 0 0 s where
  asked := (List.append_nil _).symm
  answers := rfl
  elements := (List.append_nil _).symm
  cell := rfl
  prompts _ _ := rfl
  lists _ _ := rfl
  cells _ _ := rfl
  counters := rfl

theorem nextNumber_eq (h : r.Leaves s k appended t) :
    r.nextNumber t = parseInteger ((s.prompt r.prompt).answers.getD k "") := by
  rw [nextNumber, h.answers, List.headD_eq_head?_getD, List.head?_drop,
    List.getD_eq_getElem?_getD]

theorem ask (h : r.Leaves s k appended t) (ht : r.In t) :
    r.Leaves s (k + 1) appended (r.ask t) where
  asked := by
    rw [ht.prompt_ask, List.replicate_succ', ← List.append_assoc, ← h.asked]
    rfl
  answers := by
    rw [ht.prompt_ask, ← List.drop_drop, ← h.answers, List.drop_one]
    rfl
  elements := h.elements
  cell := by
    rw [ht.get?_ask, h.nextNumber_eq, if_neg (Nat.succ_ne_zero k), Nat.add_sub_cancel]
  prompts p hp := (t.prompt_setPrompt_ne _ hp).trans (h.prompts p hp)
  lists := h.lists
  cells c hc := (t.cells.get?_put_ne _ hc).trans (h.cells c hc)
  counters := h.counters

theorem append (h : r.Leaves s questions k t) (ht : r.In t)
    (hk : k < (s.prompt r.prompt).answers.length) :
    r.Leaves s questions (k + 1)
      (r.append (parseInteger ((s.prompt r.prompt).answers.getD k "")) t) where
  asked := h.asked
  answers := h.answers
  elements := by
    rw [List.take_add_one, List.map_append, ← List.append_assoc, ← h.elements,
      List.getD_eq_getElem?_getD, List.getElem?_eq_getElem hk]
    exact t.heap.elements_update _ ht.list
  cell := h.cell
  prompts := h.prompts
  lists l hl := (t.heap.elements_update_ne _ hl).trans (h.lists l hl)
  cells := h.cells
  counters := h.counters

/-- While the answers are numbers, a round reads one more of them. -/
theorem round (h : r.Leaves s k k t) (ht : r.In t)
    (hk : k < leadingNumerals (s.prompt r.prompt).answers) :
    ∃ u, r.body t = .ok () u ∧ r.In u ∧ r.Leaves s (k + 1) (k + 1) u := by
  have hnan : ¬ (r.nextNumber t).isNaN = true := by
    rw [h.nextNumber_eq]
    simpa [isNumeral] using isNumeral_of_lt hk
  have hlength := Nat.lt_of_lt_of_le hk (leadingNumerals_le _)
  refine ⟨_, ?_, ht.ask.append _, (h.ask ht).append ht.ask hlength⟩
  rw [ht.body_apply, if_neg hnan, h.nextNumber_eq]

/-- After the last of them, a round asks and fails. -/
theorem lastRound (h : r.Leaves s k k t) (ht : r.In t)
    (hk : k = leadingNumerals (s.prompt r.prompt).answers) :
    ∃ u, r.body t = .error r.fault u ∧ r.Leaves s (k + 1) k u := by
  have hnan : (r.nextNumber t).isNaN = true := by
    rw [h.nextNumber_eq, hk]
    simpa [isNumeral] using isNumeral_leadingNumerals (s.prompt r.prompt).answers
  refine ⟨_, ?_, h.ask ht⟩
  rw [ht.body_apply, if_pos hnan]

/-- From any round on, the loop goes to its end or to the first answer that is no number. -/
theorem rounds (h : r.Leaves s k k t) (ht : r.In t)
    (hk : k ≤ leadingNumerals (s.prompt r.prompt).answers) (n : Nat) :
    (k + n ≤ leadingNumerals (s.prompt r.prompt).answers →
      ∃ u, repeatNat n r.body t = .ok () u ∧ r.Leaves s (k + n) (k + n) u) ∧
    (leadingNumerals (s.prompt r.prompt).answers < k + n →
      ∃ u, repeatNat n r.body t = .error r.fault u ∧
        r.Leaves s (leadingNumerals (s.prompt r.prompt).answers + 1)
          (leadingNumerals (s.prompt r.prompt).answers) u) := by
  induction n generalizing k t with
  | zero => exact ⟨fun _ => ⟨t, rfl, h⟩, fun hlt => absurd hlt (by omega)⟩
  | succ n ih =>
    rcases Nat.lt_or_eq_of_le hk with hlt | heq
    · obtain ⟨u, hbody, hu, hleaves⟩ := h.round ht hlt
      rw [repeatNat_succ_of_ok hbody, show k + (n + 1) = k + 1 + n by omega]
      exact ih hleaves hu hlt
    · obtain ⟨u, hbody, hleaves⟩ := h.lastRound ht heq
      rw [repeatNat_succ_of_error hbody]
      exact ⟨fun hle => absurd hle (by omega), fun _ => ⟨u, rfl, heq ▸ hleaves⟩⟩

end Leaves

/--
A loop of `n` rounds, none if `n` is negative, over any queue of answers. If the queue starts with
at least `n` numbers, all rounds succeed and the list gets the first `n` numbers. If it starts with
fewer, the loop ends with its own fault: the list gets these numbers, and one more question is
asked, which uses up one more answer if there is one. Nothing else in the store changes. A script
that is made of the acts of a round runs as the loop does.
-/
theorem reads_leading_numerals (r : ReadLoop) {s : Store} (hr : r.In s) (n : Int) :
    let answers := (s.prompt r.prompt).answers
    let j := leadingNumerals answers
    (n ≤ j → ∃ t, repeatTimes n r.body s = .ok () t ∧ r.Leaves s n.toNat n.toNat t) ∧
    (j < n → ∃ t, repeatTimes n r.body s = .error r.fault t ∧ r.Leaves s (j + 1) j t ∧
      (t.prompt r.prompt).remaining = answers.length - min answers.length (j + 1)) ∧
    (r.fault = .wrongType "not a number" →
      repeatTimes n (Action.run r.acts) s = repeatTimes n r.body s) := by
  intro answers j
  have hrounds : (0 + n.toNat ≤ j → _) ∧ (j < 0 + n.toNat → _) :=
    (Leaves.start r s).rounds hr (Nat.zero_le j) n.toNat
  rw [Nat.zero_add] at hrounds
  refine ⟨fun hle => hrounds.1 (by omega), fun hlt => ?_, fun hfault => ?_⟩
  · obtain ⟨t, hrun, hleaves⟩ := hrounds.2 (by omega)
    refine ⟨t, hrun, hleaves, ?_⟩
    rw [Scripted.remaining, hleaves.answers, List.length_drop]
    change answers.length - (j + 1) = answers.length - min answers.length (j + 1)
    omega
  · exact hr.repeatNat_acts hfault n.toNat

/-- Three rounds over a number, a text that is none, and a number that is never asked for. -/
theorem reads_leading_numerals_interrupted :
    let r : ReadLoop :=
      ⟨⟨0⟩, ⟨0⟩, ⟨0⟩, Prompt.numberMessage, .wrongType "not a number"⟩
    let s : Store :=
      { heap := ⟨#[[]]⟩, cells := ⟨#[none]⟩, prompts := #[{ answers := ["1", "x", "3"] }] }
    r.In s ∧ ∃ t, repeatTimes 3 r.body s = .error (.wrongType "not a number") t ∧
      t.heap.elements ⟨0⟩ = [.number (parseInteger "1")] ∧
      (t.prompt ⟨0⟩).asked = [Prompt.numberMessage, Prompt.numberMessage] ∧
      (t.prompt ⟨0⟩).remaining = 1 := by
  intro r s
  have hr : r.In s := ⟨by decide, by decide, by decide⟩
  have hj : leadingNumerals (s.prompt r.prompt).answers = 1 := by decide +kernel
  obtain ⟨t, hrun, hleaves, hremaining⟩ := (reads_leading_numerals r hr 3).2.1 (by rw [hj]; decide)
  rw [hj] at hleaves hremaining
  exact ⟨hr, t, hrun, hleaves.elements, hleaves.asked, hremaining⟩

end ReadLoop

end PageScript.Script
