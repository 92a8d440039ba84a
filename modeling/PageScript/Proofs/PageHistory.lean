import Mathlib.Data.List.DropRight
import PageScript.Proofs.PageCalls

/-!
# The history of a page in memory

A page in memory is used by calls, by adding and clicking elements, and between that the rest of
the program may change whatever it shares with the actions. All that the page holds can be read
off the uses, in order: which elements there are, what is in each, what is bound to it, and the
text written. Nothing is assumed about the actions or about the order of the uses.
-/

namespace PageScript.MemoryPage

variable {α σ : Type}

inductive Use (α σ : Type) where
  | call (c : Page.Call α)
  | addElement (id : ElementId)
  | click (id : ElementId)
  /-- What the rest of the program does to the state that it shares with the actions. -/
  | elsewhere (change : σ → σ)

namespace Use

def perform [SharedCells σ] (run : α → Effect σ Unit) (use : Use α σ) (page : MemoryPage α)
    (s : σ) : Page.Reply × MemoryPage α × σ :=
  match use with
  | .call c => c.perform page s
  | .addElement id => (.found (some id), page.addElement id, s)
  | .click id =>
    match MemoryPage.click run id (page, s) with
    | .ok _ state => (.outcome (.ok ()), state)
    | .error fault state => (.outcome (.error fault), state)
  | .elsewhere change => (.outcome (.ok ()), page, change s)

def adds (id : ElementId) : Use α σ → Bool
  | .addElement i => i = id
  | _ => false

def clears (id : ElementId) : Use α σ → Bool
  | .call (.clearContent i) => i = id
  | _ => false

def appended? (id : ElementId) : Use α σ → Option String
  | .call (.appendContent i text) => if i = id then some text else none
  | _ => none

def bound? (id : ElementId) : Use α σ → Option α
  | .call (.bindClick i action) => if i = id then some action else none
  | _ => none

def written? : Use α σ → Option String
  | .call (.writeText text) => some text
  | .call (.showValue h v) => some (h.display v ++ "\n")
  | _ => none

/-- The element that a use cannot do without. -/
def needed? : Use α σ → Option ElementId
  | .call (.appendContent id _) => some id
  | .call (.clearContent id) => some id
  | .call (.bindClick id _) => some id
  | .click id => some id
  | _ => none

end Use

/-- The uses from the first on that adds an element. -/
def sinceAdded (id : ElementId) (uses : List (Use α σ)) : List (Use α σ) :=
  uses.dropWhile fun use => !use.adds id

/-- The uses after the last that clears an element, or all of them. -/
def sinceCleared (id : ElementId) (uses : List (Use α σ)) : List (Use α σ) :=
  uses.rtakeWhile fun use => !use.clears id

/-- The texts appended to an element since it was last cleared, or added. -/
def contentOf (id : ElementId) (uses : List (Use α σ)) : String :=
  String.join ((sinceCleared id (sinceAdded id uses)).filterMap (Use.appended? id))

/-- The actions bound to an element since it was added, oldest first. -/
def actionsOf (id : ElementId) (uses : List (Use α σ)) : List α :=
  (sinceAdded id uses).filterMap (Use.bound? id)

def textOf (uses : List (Use α σ)) : String := String.join (uses.filterMap Use.written?)

def elementOf? (id : ElementId) (uses : List (Use α σ)) : Option (PageElement α) :=
  if uses.any (Use.adds id) then some ⟨contentOf id uses, actionsOf id uses⟩ else none

/-- A new page and the shared state, after uses in order. -/
def after [SharedCells σ] (run : α → Effect σ Unit) (uses : List (Use α σ)) (s : σ) :
    MemoryPage α × σ :=
  uses.foldl (fun state use => (use.perform run state.1 state.2).2) ({}, s)

namespace Use

/-- What a use does to an element. -/
def onElement (id : ElementId) (use : Use α σ) (element : Option (PageElement α)) :
    Option (PageElement α) :=
  if use.adds id then some (element.getD {})
  else element.map fun e =>
    { content := if use.clears id then "" else e.content ++ (use.appended? id).getD ""
      actions := e.actions ++ (use.bound? id).toList }

theorem eq_addElement_of_adds {id : ElementId} {use : Use α σ} (h : use.adds id = true) :
    use = .addElement id := by
  cases use with
  | addElement i =>
    have hi : i = id := by simpa [adds] using h
    rw [hi]
  | call c => cases h
  | click i => cases h
  | elsewhere change => cases h

/-- A use that has nothing to do with an element leaves it as it is. -/
theorem onElement_of_unrelated {id : ElementId} {use : Use α σ} (ha : use.adds id = false)
    (hc : use.clears id = false) (ht : use.appended? id = none) (hb : use.bound? id = none)
    (element : Option (PageElement α)) : use.onElement id element = element := by
  cases element <;> simp [onElement, ha, hc, ht, hb]

end Use

theorem get?_reply_change (i id : ElementId) (f : PageElement α → PageElement α)
    (page : MemoryPage α) (s : σ) :
    (Page.reply (change i f) page s).2.1.get? id =
      if i = id then (page.get? id).map f else page.get? id := by
  rw [Page.reply, change_apply]
  cases hi : (page.get? i).isSome with
  | true => exact page.get?_update i id f
  | false =>
    -- There is no such element, so nothing to change either.
    have hnone : page.get? i = none := by simpa using hi
    by_cases hid : i = id
    · subst hid
      simp [hnone]
    · simp [hid]

theorem written_reply_change (i : ElementId) (f : PageElement α → PageElement α)
    (page : MemoryPage α) (s : σ) :
    (Page.reply (change i f) page s).2.1.written = page.written := by
  rw [Page.reply, change_apply]
  cases (page.get? i).isSome <;> rfl

theorem click_keeps_page (run : α → Effect σ Unit) (id : ElementId) (page : MemoryPage α) (s : σ) :
    (∃ t, click run id (page, s) = .ok () (page, t)) ∨
      ∃ fault t, click run id (page, s) = .error fault (page, t) := by
  rw [click_apply]
  cases page.actions? id with
  | none => exact .inr ⟨_, s, rfl⟩
  | some actions =>
    dsimp only
    cases actions.forM run s with
    | ok u t => exact .inl ⟨t, rfl⟩
    | error fault t => exact .inr ⟨fault, t, rfl⟩

section Perform

variable [SharedCells σ]

theorem perform_click_page (run : α → Effect σ Unit) (id : ElementId) (page : MemoryPage α)
    (s : σ) : ((Use.click id).perform run page s).2.1 = page := by
  rw [Use.perform]
  rcases click_keeps_page run id page s with ⟨t, h⟩ | ⟨fault, t, h⟩
  · rw [h]
  · rw [h]

/-- All that a use can do to the elements. -/
theorem get?_perform (run : α → Effect σ Unit) (use : Use α σ) (page : MemoryPage α) (s : σ)
    (id : ElementId) : (use.perform run page s).2.1.get? id = use.onElement id (page.get? id) := by
  have hunrelated := @Use.onElement_of_unrelated α σ id use
  cases use with
  | call c =>
    cases c with
    | writeText text => exact (hunrelated rfl rfl rfl rfl _).symm
    | showValue h v => exact (hunrelated rfl rfl rfl rfl _).symm
    | findElement i => exact (hunrelated rfl rfl rfl rfl _).symm
    | findElementInto i cell => exact (hunrelated rfl rfl rfl rfl _).symm
    | appendContent i text =>
      refine (get?_reply_change i id _ page s).trans ?_
      by_cases hi : i = id <;>
        simp [Use.onElement, Use.adds, Use.clears, Use.appended?, Use.bound?, hi]
    | clearContent i =>
      refine (get?_reply_change i id _ page s).trans ?_
      by_cases hi : i = id <;>
        simp [Use.onElement, Use.adds, Use.clears, Use.appended?, Use.bound?, hi]
    | bindClick i action =>
      refine (get?_reply_change i id _ page s).trans ?_
      by_cases hi : i = id <;>
        simp [Use.onElement, Use.adds, Use.clears, Use.appended?, Use.bound?, hi]
  | addElement i =>
    refine (page.get?_addElement i id).trans ?_
    by_cases hi : i = id <;>
      simp [Use.onElement, Use.adds, Use.clears, Use.appended?, Use.bound?, hi]
  | click i =>
    rw [perform_click_page]
    exact (hunrelated rfl rfl rfl rfl _).symm
  | elsewhere change => exact (hunrelated rfl rfl rfl rfl _).symm

theorem written_perform (run : α → Effect σ Unit) (use : Use α σ) (page : MemoryPage α) (s : σ) :
    (use.perform run page s).2.1.written = page.written ++ use.written?.getD "" := by
  have hnothing : page.written = page.written ++ "" := String.append_empty.symm
  cases use with
  | call c =>
    cases c with
    | writeText text => rfl
    | showValue h v => rfl
    | findElement i => exact hnothing
    | findElementInto i cell => exact hnothing
    | appendContent i text => exact (written_reply_change i _ page s).trans hnothing
    | clearContent i => exact (written_reply_change i _ page s).trans hnothing
    | bindClick i action => exact (written_reply_change i _ page s).trans hnothing
  | addElement i => exact (page.written_addElement i).trans hnothing
  | click i =>
    rw [perform_click_page]
    exact hnothing
  | elsewhere change => exact hnothing

end Perform

theorem any_adds_iff {id : ElementId} {uses : List (Use α σ)} :
    uses.any (Use.adds id) = true ↔ .addElement id ∈ uses := by
  rw [List.any_eq_true]
  constructor
  · rintro ⟨use, hmem, hadds⟩
    rwa [← Use.eq_addElement_of_adds hadds]
  · intro hmem
    exact ⟨_, hmem, by simp [Use.adds]⟩

theorem sinceAdded_concat {id : ElementId} {uses : List (Use α σ)}
    (h : uses.any (Use.adds id) = true) (use : Use α σ) :
    sinceAdded id (uses ++ [use]) = sinceAdded id uses ++ [use] := by
  obtain ⟨added, hmem, hadds⟩ := List.any_eq_true.mp h
  have hne : sinceAdded id uses ≠ [] := by
    rw [sinceAdded, ne_eq, List.dropWhile_eq_nil_iff]
    intro hall
    simpa [hadds] using hall added hmem
  rw [sinceAdded, List.dropWhile_append, if_neg (by simpa [sinceAdded] using hne)]
  rfl

/-- Before its element is there, nothing counts. -/
theorem sinceAdded_concat_addElement {id : ElementId} {uses : List (Use α σ)}
    (h : uses.any (Use.adds id) = false) :
    sinceAdded id (uses ++ [.addElement id]) = [.addElement id] := by
  rw [List.any_eq_false] at h
  rw [sinceAdded, List.dropWhile_append_of_pos fun use hmem => by simpa using h use hmem]
  simp [Use.adds]

theorem contentOf_concat {id : ElementId} {uses : List (Use α σ)}
    (h : uses.any (Use.adds id) = true) (use : Use α σ) :
    contentOf id (uses ++ [use]) =
      if use.clears id then "" else contentOf id uses ++ (use.appended? id).getD "" := by
  rw [contentOf, sinceAdded_concat h, sinceCleared, List.rtakeWhile_concat]
  cases use.clears id with
  | true => rfl
  | false =>
    rw [Bool.not_false, if_pos rfl, if_neg Bool.false_ne_true, List.filterMap_append,
      String.join_append, contentOf, sinceCleared]
    cases ht : use.appended? id <;> simp [ht]

theorem actionsOf_concat {id : ElementId} {uses : List (Use α σ)}
    (h : uses.any (Use.adds id) = true) (use : Use α σ) :
    actionsOf id (uses ++ [use]) = actionsOf id uses ++ (use.bound? id).toList := by
  rw [actionsOf, sinceAdded_concat h, List.filterMap_append, actionsOf]
  cases hb : use.bound? id <;> simp [hb]

/-- The history of an element grows by what the next use does to it. -/
theorem elementOf?_concat (id : ElementId) (uses : List (Use α σ)) (use : Use α σ) :
    elementOf? id (uses ++ [use]) = use.onElement id (elementOf? id uses) := by
  have hany : (uses ++ [use]).any (Use.adds id) = (uses.any (Use.adds id) || use.adds id) := by
    simp
  rw [elementOf?, elementOf?, hany]
  cases hbefore : uses.any (Use.adds id) with
  | true =>
    rw [contentOf_concat hbefore, actionsOf_concat hbefore]
    cases hadds : use.adds id with
    | false => simp [Use.onElement, hadds]
    | true =>
      obtain rfl := Use.eq_addElement_of_adds hadds
      simp [Use.onElement, Use.adds, Use.clears, Use.appended?, Use.bound?]
  | false =>
    cases hadds : use.adds id with
    | false => simp [Use.onElement, hadds]
    | true =>
      obtain rfl := Use.eq_addElement_of_adds hadds
      have hcontent : contentOf id (uses ++ [.addElement id]) = "" := by
        rw [contentOf, sinceAdded_concat_addElement hbefore]
        rfl
      have hactions : actionsOf id (uses ++ [.addElement id]) = [] := by
        rw [actionsOf, sinceAdded_concat_addElement hbefore]
        rfl
      simp [Use.onElement, hadds, hcontent, hactions]

theorem textOf_concat (uses : List (Use α σ)) (use : Use α σ) :
    textOf (uses ++ [use]) = textOf uses ++ use.written?.getD "" := by
  rw [textOf, List.filterMap_append, String.join_append]
  cases h : use.written? <;> simp [h, textOf]

section After

variable [SharedCells σ]

theorem after_concat (run : α → Effect σ Unit) (uses : List (Use α σ)) (use : Use α σ) (s : σ) :
    after run (uses ++ [use]) s =
      (use.perform run (after run uses s).1 (after run uses s).2).2 := by
  rw [after, List.foldl_append]
  rfl

theorem get?_after (run : α → Effect σ Unit) (uses : List (Use α σ)) (s : σ) (id : ElementId) :
    (after run uses s).1.get? id = elementOf? id uses := by
  induction uses using List.reverseRecOn with
  | nil => rfl
  | append_singleton uses use ih => rw [after_concat, get?_perform, ih, elementOf?_concat]

theorem written_after (run : α → Effect σ Unit) (uses : List (Use α σ)) (s : σ) :
    (after run uses s).1.written = textOf uses := by
  induction uses using List.reverseRecOn with
  | nil => rfl
  | append_singleton uses use ih => rw [after_concat, written_perform, ih, textOf_concat]

theorem get?_after_of_mem (run : α → Effect σ Unit) {uses : List (Use α σ)} (s : σ)
    {id : ElementId} (h : .addElement id ∈ uses) :
    (after run uses s).1.get? id = some ⟨contentOf id uses, actionsOf id uses⟩ := by
  rw [get?_after, elementOf?, if_pos (any_adds_iff.mpr h)]

theorem get?_after_of_notMem (run : α → Effect σ Unit) {uses : List (Use α σ)} (s : σ)
    {id : ElementId} (h : .addElement id ∉ uses) : (after run uses s).1.get? id = none := by
  rw [get?_after, elementOf?, if_neg fun ha => h (any_adds_iff.mp ha)]

/-- What needs an element that is not there is refused and changes nothing. -/
theorem perform_of_get?_eq_none (run : α → Effect σ Unit) {page : MemoryPage α} {id : ElementId}
    (h : page.get? id = none) {use : Use α σ} (huse : use.needed? = some id) (s : σ) :
    use.perform run page s = (.outcome (.error (.unknownElement id.name)), page, s) := by
  have hchange : ∀ f, Page.reply (change id f) page s =
      (.outcome (.error (.unknownElement id.name)), page, s) := by
    intro f
    rw [Page.reply, change_apply, h]
    rfl
  cases use with
  | call c =>
    cases c with
    | appendContent i text =>
      obtain rfl : i = id := Option.some.inj huse
      exact hchange _
    | clearContent i =>
      obtain rfl : i = id := Option.some.inj huse
      exact hchange _
    | bindClick i action =>
      obtain rfl : i = id := Option.some.inj huse
      exact hchange _
    | writeText text => cases huse
    | showValue heap v => cases huse
    | findElement i => cases huse
    | findElementInto i cell => cases huse
  | click i =>
    obtain rfl : i = id := Option.some.inj huse
    rw [Use.perform, click_apply, actions?, h]
    rfl
  | addElement i => cases huse
  | elsewhere change => cases huse

theorem findElement_eq (page : MemoryPage α) (id : ElementId) :
    Page.findElement page id = if (page.get? id).isSome then some id else none := rfl

/--
A page in memory holds what its history says. Elements are those that were added; adding one
again changes nothing at all. The content of an element is what was appended to it since it was
last cleared, its actions are those bound to it, and the text is what was written and shown. What
needs an element that was not added is refused with its name and leaves the page as it was.
-/
theorem page_keeps_history (run : α → Effect σ Unit) (uses : List (Use α σ)) (s : σ) :
    let page := (after run uses s).1
    page.written = textOf uses ∧
      ∀ id : ElementId,
        (.addElement id ∈ uses →
          Page.findElement page id = some id ∧ page.content? id = some (contentOf id uses) ∧
          page.actions? id = some (actionsOf id uses) ∧ page.addElement id = page) ∧
        (.addElement id ∉ uses →
          Page.findElement page id = none ∧ page.content? id = none ∧
          ∀ use : Use α σ, use.needed? = some id → ∀ t,
            use.perform run page t = (.outcome (.error (.unknownElement id.name)), page, t)) := by
  refine ⟨written_after run uses s, fun id => ⟨?_, ?_⟩⟩
  · intro hmem
    have hget := get?_after_of_mem run s hmem
    refine ⟨?_, ?_, ?_, ?_⟩
    · rw [findElement_eq, hget]
      rfl
    · rw [content?, hget]
      rfl
    · rw [actions?, hget]
      rfl
    · rw [addElement, hget]
      rfl
  · intro hmem
    have hget := get?_after_of_notMem run s hmem
    refine ⟨?_, ?_, ?_⟩
    · rw [findElement_eq, hget]
      rfl
    · rw [content?, hget]
      rfl
    · intro use huse t
      exact perform_of_get?_eq_none run hget huse t

end After

/-- An element that is appended to too early, added, cleared and added again. -/
def editedUses : List (Use Unit Script.Store) :=
  [.call (.appendContent ⟨"a"⟩ "w"), .addElement ⟨"a"⟩, .call (.appendContent ⟨"a"⟩ "x"),
    .call (.clearContent ⟨"a"⟩), .call (.appendContent ⟨"a"⟩ "y"), .call (.writeText "t"),
    .addElement ⟨"a"⟩, .call (.appendContent ⟨"a"⟩ "z")]

theorem page_keeps_history_edited :
    let run : Unit → Effect Script.Store Unit := fun _ => pure ()
    let page := (after run editedUses {}).1
    page.written = "t" ∧ .addElement ⟨"a"⟩ ∈ editedUses ∧ page.content? ⟨"a"⟩ = some "yz" ∧
      .addElement ⟨"b"⟩ ∉ editedUses ∧
      ∀ t, (Use.click ⟨"b"⟩).perform run page t =
        (.outcome (.error (.unknownElement "b")), page, t) := by
  intro run page
  have hadded : .addElement ⟨"a"⟩ ∈ editedUses := .tail _ (.head _)
  have hunknown : .addElement ⟨"b"⟩ ∉ editedUses := by simp [editedUses]
  obtain ⟨hwritten, hids⟩ := page_keeps_history run editedUses {}
  obtain ⟨-, hcontent, -⟩ := (hids ⟨"a"⟩).1 hadded
  obtain ⟨-, -, hrefused⟩ := (hids ⟨"b"⟩).2 hunknown
  exact ⟨hwritten, hadded, hcontent, hunknown, fun t => hrefused (.click ⟨"b"⟩) rfl t⟩

end PageScript.MemoryPage
