import Mathlib.Data.List.Induction
import PageScript.Prompt.Basic

/-!
# The history of a scripted prompt

Answers are queued, questions are asked and numbers are read into cells, in any order and through
any handles. A ledger of these uses keeps every answer ever queued and notes the places of those
that were returned, so it says for each question which answer is the oldest one left.

Main statement: the prompt gives just that answer, and a number that is read from it goes to its
own cell and no other.
-/

namespace PageScript.Scripted

/-- A use of a prompt. A number is read with a message of its own or with the fixed one. -/
inductive Use where
  | push (answer : String)
  | ask (message : String)
  | read (cell : CellId) (message : Option String)

namespace Use

/-- What a use does. A question that is asked directly gives back its answer. -/
def perform (use : Use) (p : Scripted) (cells : Cells) : Option String × Scripted × Cells :=
  match use with
  | .push answer => (none, p.push answer, cells)
  | .ask message =>
    let (answer, p) := Scripted.ask message p
    (some answer, p, cells)
  | .read cell message =>
    (none, (Prompt.readInto cell (message.getD Prompt.numberMessage) (p, cells)).2)

def queued? : Use → Option String
  | .push answer => some answer
  | _ => none

def message? : Use → Option String
  | .push _ => none
  | .ask message => some message
  | .read _ message => some (message.getD Prompt.numberMessage)

end Use

/-- A new prompt with answers, and the cells, after uses in order. -/
def after (answers : List String) (cells : Cells) (uses : List Use) : Scripted × Cells :=
  uses.foldl (fun s use => (use.perform s.1 s.2).2) ({ answers }, cells)

/-- All answers ever queued, oldest first, and the places of those that were returned. -/
structure Ledger where
  queued : List String
  returned : List Nat := []

namespace Ledger

/-- The place of the oldest answer that was not returned. -/
def oldest? (l : Ledger) : Option Nat :=
  (List.range l.queued.length).find? fun i => i ∉ l.returned

/-- The oldest answer that was not returned, or the empty text. -/
def answer (l : Ledger) : String := (l.oldest?.bind fun i => l.queued[i]?).getD ""

def note (l : Ledger) (use : Use) : Ledger :=
  { queued := l.queued ++ use.queued?.toList
    returned := if use.message?.isSome then l.returned ++ l.oldest?.toList else l.returned }

def of (answers : List String) (uses : List Use) : Ledger := uses.foldl note { queued := answers }

/-- What waits in a prompt is what the ledger has left. -/
structure Describes (l : Ledger) (p : Scripted) : Prop where
  returned : l.returned = List.range l.returned.length
  count_le : l.returned.length ≤ l.queued.length
  waiting : p.answers = l.queued.drop l.returned.length

namespace Describes

variable {l : Ledger} {p : Scripted}

theorem start (answers : List String) : Describes { queued := answers } { answers } :=
  ⟨rfl, Nat.zero_le _, rfl⟩

theorem remaining (h : l.Describes p) : p.remaining + l.returned.length = l.queued.length := by
  have hle := h.count_le
  rw [Scripted.remaining, h.waiting, List.length_drop]
  omega

/-- Answers are returned in order, so the oldest one left comes next after them. -/
theorem oldest?_eq (h : l.Describes p) :
    l.oldest? = if l.returned.length < l.queued.length then some l.returned.length else none := by
  have hmem : ∀ i, i ∈ l.returned ↔ i < l.returned.length := by
    intro i
    conv_lhs => rw [h.returned]
    exact List.mem_range
  by_cases hlt : l.returned.length < l.queued.length
  · rw [if_pos hlt, oldest?, List.find?_range_eq_some]
    refine ⟨?_, List.mem_range.mpr hlt, ?_⟩
    · simp [hmem]
    · intro j hj
      simp [hmem, hj]
  · rw [if_neg hlt, oldest?, List.find?_range_eq_none]
    intro i hi
    simp [hmem]
    omega

theorem answer_eq (h : l.Describes p) : l.answer = p.answers.headD "" := by
  rw [answer, h.oldest?_eq, h.waiting]
  by_cases hlt : l.returned.length < l.queued.length
  · rw [if_pos hlt, Option.bind_some, List.headD_eq_head?_getD, List.head?_drop]
  · rw [if_neg hlt, List.drop_of_length_le (Nat.le_of_not_lt hlt)]
    rfl

theorem push (h : l.Describes p) (answer : String) :
    (l.note (.push answer)).Describes (p.push answer) := by
  have hle := h.count_le
  refine ⟨h.returned, ?_, ?_⟩
  · change l.returned.length ≤ (l.queued ++ [answer]).length
    rw [List.length_append]
    omega
  · change p.answers ++ [answer] = (l.queued ++ [answer]).drop l.returned.length
    rw [List.drop_append_of_le_length hle, h.waiting]

/-- A question takes the oldest answer, and none if there is none. -/
theorem ask (h : l.Describes p) {use : Use} {message : String} (huse : use.message? = some message)
    (hqueued : use.queued? = none) : (l.note use).Describes (Scripted.ask message p).2 := by
  have hreturned : (l.note use).returned = l.returned ++ l.oldest?.toList := by
    rw [note, huse]
    rfl
  have hsame : (l.note use).queued = l.queued := by
    rw [note, hqueued]
    exact List.append_nil _
  have hanswers : (Scripted.ask message p).2.answers = p.answers.tail := rfl
  by_cases hlt : l.returned.length < l.queued.length
  · rw [h.oldest?_eq, if_pos hlt] at hreturned
    have hlength : (l.note use).returned.length = l.returned.length + 1 := by
      rw [hreturned, List.length_append]
      rfl
    refine ⟨?_, ?_, ?_⟩
    · rw [hlength, List.range_succ, ← h.returned, hreturned]
      rfl
    · rw [hlength, hsame]
      omega
    · rw [hanswers, hlength, hsame, h.waiting, List.tail_drop]
  · rw [h.oldest?_eq, if_neg hlt] at hreturned
    have hsame' : (l.note use).returned = l.returned := hreturned.trans (List.append_nil _)
    refine ⟨?_, ?_, ?_⟩
    · rw [hsame', ← h.returned]
    · rw [hsame', hsame]
      exact h.count_le
    · rw [hanswers, hsame', hsame, h.waiting, List.tail_drop,
        List.drop_of_length_le (by omega), List.drop_of_length_le (by omega)]

end Describes

end Ledger

theorem Ledger.Describes.perform {l : Ledger} {p : Scripted} (h : l.Describes p) (use : Use)
    (cells : Cells) : (l.note use).Describes (use.perform p cells).2.1 := by
  cases use with
  | push answer => exact h.push answer
  | ask message => exact h.ask rfl rfl
  | read cell message => exact h.ask rfl rfl

theorem after_concat (answers : List String) (cells : Cells) (uses : List Use) (use : Use) :
    after answers cells (uses ++ [use]) =
      (use.perform (after answers cells uses).1 (after answers cells uses).2).2 := by
  rw [after, List.foldl_append]
  rfl

theorem Ledger.of_concat (answers : List String) (uses : List Use) (use : Use) :
    Ledger.of answers (uses ++ [use]) = (Ledger.of answers uses).note use := by
  rw [Ledger.of, List.foldl_append]
  rfl

theorem describes_after (answers : List String) (cells : Cells) (uses : List Use) :
    (Ledger.of answers uses).Describes (after answers cells uses).1 := by
  induction uses using List.reverseRecOn with
  | nil => exact .start answers
  | append_singleton uses use ih =>
    rw [after_concat, Ledger.of_concat]
    exact ih.perform use _

theorem queued_of (answers : List String) (uses : List Use) :
    (Ledger.of answers uses).queued = answers ++ uses.filterMap Use.queued? := by
  induction uses using List.reverseRecOn with
  | nil => exact (List.append_nil _).symm
  | append_singleton uses use ih =>
    rw [Ledger.of_concat, Ledger.note, ih, List.filterMap_append, List.append_assoc]
    cases hq : use.queued? <;> simp [hq]

theorem asked_after (answers : List String) (cells : Cells) (uses : List Use) :
    (after answers cells uses).1.asked = uses.filterMap Use.message? := by
  induction uses using List.reverseRecOn with
  | nil => rfl
  | append_singleton uses use ih =>
    rw [after_concat, List.filterMap_append, ← ih]
    cases use with
    | push answer => exact (List.append_nil _).symm
    | ask message => rfl
    | read cell message => rfl

theorem count_perform (use : Use) (p : Scripted) (cells : Cells) :
    (use.perform p cells).2.2.count = cells.count := by
  cases use with
  | push answer => rfl
  | ask message => rfl
  | read cell message => exact Array.size_modify

theorem count_after (answers : List String) (cells : Cells) (uses : List Use) :
    (after answers cells uses).2.count = cells.count := by
  induction uses using List.reverseRecOn with
  | nil => rfl
  | append_singleton uses use ih => rw [after_concat, count_perform, ih]

theorem after_append_pushes (answers : List String) (cells : Cells) (uses : List Use)
    (later : List String) :
    (after answers cells (uses ++ later.map .push)).1.answers =
      (after answers cells uses).1.answers ++ later := by
  induction later using List.reverseRecOn with
  | nil => simp
  | append_singleton later answer ih =>
    rw [List.map_append, ← List.append_assoc, List.map_singleton, after_concat, ← List.append_assoc,
      ← ih]
    rfl

theorem get?_readInto (p : Scripted) (cells : Cells) {cell : CellId} (message : String)
    (hcell : cell.index < cells.count) :
    (Prompt.readInto cell message (p, cells)).2.2.get? cell =
      some (.number (parseInteger (p.answers.headD ""))) :=
  cells.get?_put _ hcell

theorem get?_readInto_ne (p : Scripted) (cells : Cells) {cell d : CellId} (message : String)
    (hd : d ≠ cell) : (Prompt.readInto cell message (p, cells)).2.2.get? d = cells.get? d :=
  cells.get?_put_ne _ hd

/--
After any uses, the next question gets the oldest answer left, and all messages are kept. Answers
are neither lost nor returned twice, and a question that finds none takes nothing from what is
queued later. A number is read by one question, and its own cell, which any number of handles
may share, is the only one that changes.
-/
theorem questions_get_oldest_answer (answers : List String) (cells : Cells) (uses : List Use) :
    let s := after answers cells uses
    let ledger := Ledger.of answers uses
    ledger.queued = answers ++ uses.filterMap Use.queued? ∧
    s.1.asked = uses.filterMap Use.message? ∧
    s.1.remaining + ledger.returned.length = ledger.queued.length ∧
    (∀ answer, ((Use.push answer).perform s.1 s.2).2.2 = s.2) ∧
    (∀ message, ∃ p, (Use.ask message).perform s.1 s.2 = (some ledger.answer, p, s.2)) ∧
    (∀ (cell : CellId) (message : Option String),
      let asked := after answers cells (uses ++ [.ask (message.getD Prompt.numberMessage)])
      let read := after answers cells (uses ++ [.read cell message])
      read.1 = asked.1 ∧
      (cell.index < cells.count →
        read.2.get? cell = some (.number (parseInteger ledger.answer))) ∧
      ∀ d, d ≠ cell → read.2.get? d = s.2.get? d) ∧
    (s.1.remaining = 0 → ∀ (use : Use) (message : String), use.message? = some message →
      ∀ later : List String,
        (after answers cells (uses ++ [use] ++ later.map .push)).1.answers = later) := by
  intro s ledger
  have hdescribes : ledger.Describes s.1 := describes_after answers cells uses
  have hanswer : ledger.answer = s.1.answers.headD "" := hdescribes.answer_eq
  refine ⟨queued_of answers uses, asked_after answers cells uses, hdescribes.remaining,
    fun _ => rfl, ?_, ?_, ?_⟩
  · intro message
    refine ⟨(Scripted.ask message s.1).2, ?_⟩
    rw [hanswer]
    rfl
  · intro cell message
    rw [after_concat, after_concat]
    refine ⟨rfl, ?_, ?_⟩
    · intro hcell
      rw [← count_after answers cells uses] at hcell
      rw [hanswer]
      exact get?_readInto _ _ _ hcell
    · intro d hd
      exact get?_readInto_ne _ _ _ hd
  · intro hnone use message huse later
    have hempty : s.1.answers = [] := List.eq_nil_of_length_eq_zero hnone
    have htail : (use.perform s.1 s.2).2.1.answers = s.1.answers.tail := by
      cases use with
      | push answer => cases huse
      | ask message => rfl
      | read cell message => rfl
    rw [after_append_pushes, after_concat, htail, hempty]
    rfl

/-- A number is asked for too early, and again after its answer was queued. -/
theorem questions_get_oldest_answer_late :
    let before : List Use := [.ask "a", .read ⟨0⟩ none, .push "12"]
    (after ["7"] ⟨#[none]⟩ (before ++ [.read ⟨0⟩ (some "b")])).2.get? ⟨0⟩ =
      some (.number (parseInteger "12")) :=
  ((questions_get_oldest_answer ["7"] ⟨#[none]⟩ [.ask "a", .read ⟨0⟩ none, .push "12"]).2.2.2.2.2.1
    ⟨0⟩ (some "b")).2.1 (by decide)

end PageScript.Scripted
