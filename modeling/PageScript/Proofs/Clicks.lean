import PageScript.Proofs.PageHistory
import PageScript.Proofs.Sequence
import PageScript.Script.Act

/-!
# Clicks

A click on an element runs the actions that the history of the page has bound to it, from the
first one on, and nothing else. The actions may do anything to the state that they share, and may
fail by it; what they do to it before a fault stays. The page is not a part of that state, so no
click changes it, and the next click starts from the same actions again.
-/

namespace PageScript.MemoryPage

open Effect (Succeeds Stops recorded succeeds_or_stops)

variable {α σ : Type}

/--
What a click does with the actions of its element in a shared state. Either all of them succeed,
or it stops at the first that fails and gives back its fault. In both cases it starts exactly the
actions that it should, in order, and leaves the page.
-/
inductive ClickRuns (run : α → Effect σ Unit) (id : ElementId) (page : MemoryPage α)
    (actions : List α) (s : σ) : Prop where
  | all {t : σ} (hall : Succeeds run actions s t)
    (hclick : click run id (page, s) = .ok () (page, t))
    (hstarted : ∀ started, click (recorded run) id (page, started, s) =
      .ok () (page, started ++ actions, t))
  | upTo {ran : List α} {fault : Fault} {u : σ} (hstops : Stops run actions s ran fault u)
    (hclick : click run id (page, s) = .error fault (page, u))
    (hstarted : ∀ started, click (recorded run) id (page, started, s) =
      .error fault (page, started ++ ran, u))

theorem clickRuns_of_actions (run : α → Effect σ Unit) {id : ElementId} {page : MemoryPage α}
    {actions : List α} (h : page.actions? id = some actions) (s : σ) :
    ClickRuns run id page actions s := by
  rcases succeeds_or_stops run actions s with ⟨t, hall⟩ | ⟨ran, fault, u, hstops⟩
  · refine .all hall ?_ fun started => ?_
    · simp only [click_apply, h, hall.forM]
    · simp only [click_apply, h, (hall.recorded started).forM]
  · refine .upTo hstops ?_ fun started => ?_
    · simp only [click_apply, h, hstops.forM]
    · simp only [click_apply, h, (hstops.recorded started).forM]

variable [SharedCells σ]

/--
After any uses of a page, a click on an element that was added runs the actions bound to it, in
the order of binding, up to the first that fails, whatever state they share. A click on any
element, whether it fails or not, leaves the page as it is, so the next one starts again from the
first action.
-/
theorem click_runs_bound_actions (run : α → Effect σ Unit) (uses : List (Use α σ)) (start : σ)
    {id : ElementId} (h : .addElement id ∈ uses) :
    let page := (after run uses start).1
    (∀ s, ClickRuns run id page (actionsOf id uses) s) ∧
      ∀ i s,
        let next := ((Use.click i).perform run page s).2
        next.1 = page ∧ ClickRuns run id next.1 (actionsOf id uses) next.2 := by
  have hactions : (after run uses start).1.actions? id = some (actionsOf id uses) := by
    rw [actions?, get?_after_of_mem run start h]
    rfl
  have hruns := clickRuns_of_actions run hactions
  refine ⟨hruns, fun i s => ?_⟩
  have hpage := perform_click_page run i (after run uses start).1 s
  exact ⟨hpage, by rw [hpage]; exact hruns _⟩

/--
A button with three actions, the second of which sets a cell before it fails. It was clicked once
before the third was bound.
-/
def faultyUses : List (Use Script.Action Script.Store) :=
  [.addElement ⟨"nappi"⟩, .call (.bindClick ⟨"nappi"⟩ [.set ⟨0⟩ (.boolean true)]),
    .call (.bindClick ⟨"nappi"⟩ [.set ⟨1⟩ .null, .fail (.wrongType "boom"), .unset ⟨0⟩]),
    .click ⟨"nappi"⟩, .call (.bindClick ⟨"nappi"⟩ [.unset ⟨0⟩])]

theorem click_runs_bound_actions_faulty :
    let page := (after Script.Action.run faultyUses {}).1
    .addElement ⟨"nappi"⟩ ∈ faultyUses ∧
      (∀ s, ClickRuns Script.Action.run ⟨"nappi"⟩ page (actionsOf ⟨"nappi"⟩ faultyUses) s) ∧
      (actionsOf ⟨"nappi"⟩ faultyUses).length = 3 ∧
      click Script.Action.run ⟨"nappi"⟩ (page, { cells := ⟨#[none, none]⟩ }) =
        .error (.wrongType "boom") (page, { cells := ⟨#[some (.boolean true), some .null]⟩ }) :=
  ⟨.head _, (click_runs_bound_actions Script.Action.run faultyUses {} (.head _)).1, rfl, rfl⟩

end PageScript.MemoryPage
