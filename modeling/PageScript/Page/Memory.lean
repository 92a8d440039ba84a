import PageScript.Page.Basic

/-!
# Pages in memory

A memory page keeps the text written and its elements. A click runs the actions bound to an
element in the order in which they were bound, up to the first fault.
-/

namespace PageScript

/-- The content of an element and the actions bound to clicks on it, in order. -/
structure PageElement (α : Type) where
  content : String := ""
  actions : List α := []

/-- A page in memory, with its elements in the order in which they were added. -/
structure MemoryPage (α : Type) where
  written : String := ""
  elements : List (ElementId × PageElement α) := []

namespace MemoryPage

variable {α σ : Type}

def get? (page : MemoryPage α) (id : ElementId) : Option (PageElement α) :=
  page.elements.lookup id

/-- Adds an empty element unless there is one with the identifier. -/
def addElement (page : MemoryPage α) (id : ElementId) : MemoryPage α :=
  if (page.get? id).isSome then page
  else { page with elements := page.elements ++ [(id, {})] }

def content? (page : MemoryPage α) (id : ElementId) : Option String :=
  (page.get? id).map PageElement.content

def actions? (page : MemoryPage α) (id : ElementId) : Option (List α) :=
  (page.get? id).map PageElement.actions

def update (page : MemoryPage α) (id : ElementId) (f : PageElement α → PageElement α) :
    MemoryPage α :=
  { page with elements := page.elements.map fun (i, e) => if i = id then (i, f e) else (i, e) }

/-- Changes an element that has to be there. -/
def change (id : ElementId) (f : PageElement α → PageElement α) : Effect (MemoryPage α) Unit := do
  let page ← get
  if (page.get? id).isSome then set (page.update id f)
  else throw (.unknownElement id.name)

instance : Page MemoryPage where
  writeText text := modify fun page => { page with written := page.written ++ text }
  findElement page id := if (page.get? id).isSome then some id else none
  appendContent id text := change id fun e => { e with content := e.content ++ text }
  clearContent id := change id fun e => { e with content := "" }
  bindClick id action := change id fun e => { e with actions := e.actions ++ [action] }

/-- Runs the actions bound to an element, in order, up to the first fault. -/
def click (run : α → Effect σ Unit) (id : ElementId) : Effect (MemoryPage α × σ) Unit := do
  let (page, _) ← get
  match page.actions? id with
  | some actions => Effect.onPart Prod.snd (fun s p => (p.1, s)) (actions.forM run)
  | none => throw (.unknownElement id.name)

theorem get?_addElement (page : MemoryPage α) (i id : ElementId) :
    (page.addElement i).get? id =
      if i = id then some ((page.get? id).getD {}) else page.get? id := by
  unfold addElement
  split
  · rename_i hi
    obtain ⟨e, he⟩ := Option.isSome_iff_exists.mp hi
    split
    · rename_i hid
      rw [← hid, he, Option.getD_some]
    · rfl
  · rename_i hi
    have hnone : page.elements.lookup i = none := Option.not_isSome_iff_eq_none.mp hi
    simp only [get?, List.lookup_append]
    by_cases hid : i = id
    · subst hid
      simp [hnone]
    · have hne : (id == i) = false := by simpa using Ne.symm hid
      simp [List.lookup_cons, hne, hid]

theorem written_addElement (page : MemoryPage α) (id : ElementId) :
    (page.addElement id).written = page.written := by
  unfold addElement
  split <;> rfl

theorem get?_update (page : MemoryPage α) (i id : ElementId) (f : PageElement α → PageElement α) :
    (page.update i f).get? id = if i = id then (page.get? id).map f else page.get? id := by
  unfold update get?
  dsimp only
  induction page.elements with
  | nil => simp
  | cons entry entries ih =>
    obtain ⟨k, e⟩ := entry
    have hentry : (if k = i then (k, f e) else (k, e)) = (k, if k = i then f e else e) := by
      split <;> rfl
    rw [List.map_cons, hentry, List.lookup_cons, List.lookup_cons]
    by_cases hk : id = k
    · subst hk
      by_cases hi : id = i
      · simp [hi]
      · simp [hi, Ne.symm hi]
    · have hid : (id == k) = false := by simpa using hk
      rw [hid]
      exact ih

theorem change_apply (id : ElementId) (f : PageElement α → PageElement α) (page : MemoryPage α) :
    change id f page =
      if (page.get? id).isSome then .ok () (page.update id f)
      else .error (.unknownElement id.name) page := by
  show (if (page.get? id).isSome then set (page.update id f)
    else throw (.unknownElement id.name) : Effect (MemoryPage α) Unit) page = _
  split <;> rfl

theorem click_apply (run : α → Effect σ Unit) (id : ElementId) (page : MemoryPage α) (s : σ) :
    click run id (page, s) =
      match page.actions? id with
      | some actions =>
        match actions.forM run s with
        | .ok _ t => .ok () (page, t)
        | .error fault t => .error fault (page, t)
      | none => .error (.unknownElement id.name) (page, s) := by
  show (match page.actions? id with
    | some actions => Effect.onPart Prod.snd (fun s p => (p.1, s)) (actions.forM run)
    | none => throw (.unknownElement id.name) : Effect (MemoryPage α × σ) Unit) (page, s) = _
  cases page.actions? id with
  | none => rfl
  | some actions =>
    simp only [Effect.onPart]
    cases actions.forM run s <;> rfl

end MemoryPage

end PageScript
