import PageScript.Page.Basic
import PageScript.Page.Memory
import PageScript.Script.Store

/-!
# Calls of a page

A client of a page makes calls and gets replies. Besides the page it has a state of its own with
cells in it, which it may change between the calls as it likes. Neither the calls nor their
arguments are fixed beforehand: each may depend on all replies so far and on that state, so what
a call has stored in a cell can be shown by a later one.

Main statement: no client can tell a console, on a device that is not full, from a page in memory
to which no element is added.
-/

namespace PageScript

/-- State that has cells in it. -/
class SharedCells (σ : Type) where
  cells : σ → Cells
  setCells : Cells → σ → σ

instance : SharedCells Script.Store where
  cells := Script.Store.cells
  setCells cells s := { s with cells }

namespace Page

variable {π : Type → Type} [Page π] {α σ : Type} [SharedCells σ]

/-- A call that every page understands. A value is shown as some heap has it. -/
inductive Call (α : Type) where
  | writeText (text : String)
  | showValue (h : Heap) (v : Value)
  | findElement (id : ElementId)
  | findElementInto (id : ElementId) (cell : CellId)
  | appendContent (id : ElementId) (text : String)
  | clearContent (id : ElementId)
  | bindClick (id : ElementId) (action : α)

inductive Reply where
  | outcome (result : Except Fault Unit)
  | found (element : Option ElementId)

/-- What an effect on a page replies. -/
def reply (effect : Effect (π α) Unit) (page : π α) (s : σ) : Reply × π α × σ :=
  match effect page with
  | .ok _ page => (.outcome (.ok ()), page, s)
  | .error fault page => (.outcome (.error fault), page, s)

def Call.perform (call : Call α) (page : π α) (s : σ) : Reply × π α × σ :=
  match call with
  | .writeText text => reply (Page.writeText text) page s
  | .showValue h v => reply (Page.showValue h v) page s
  | .findElement id => (.found (Page.findElement page id), page, s)
  | .findElementInto id cell =>
    let cells := Page.findElementInto page id cell (SharedCells.cells s)
    (.outcome (.ok ()), page, SharedCells.setCells cells s)
  | .appendContent id text => reply (Page.appendContent id text) page s
  | .clearContent id => reply (Page.clearContent id) page s
  | .bindClick id action => reply (Page.bindClick id action) page s

/-- A page and its client, with the replies that the client has got, oldest first. -/
structure Exchange (π : Type → Type) (α σ : Type) where
  page : π α
  state : σ
  replies : List Reply := []

/-- A client's turn: it may change its state, and makes a call. -/
abbrev Turn (α σ : Type) := List Reply → σ → σ × Call α

def Exchange.next (x : Exchange π α σ) (turn : Turn α σ) : Exchange π α σ :=
  let (s, call) := turn x.replies x.state
  let (reply, page, s) := call.perform x.page s
  { page, state := s, replies := x.replies ++ [reply] }

end Page

open Page

variable {α σ : Type} [SharedCells σ]

/-- A console that takes every text and a page without elements, with the same text on them. -/
structure Alike (console : Console α) (page : MemoryPage α) : Prop where
  ready : console.full = false
  bare : page.elements = []
  text : console.output = page.written

namespace Alike

variable {console : Console α} {page : MemoryPage α}

theorem get?_eq_none (h : Alike console page) (id : ElementId) : page.get? id = none := by
  rw [MemoryPage.get?, h.bare, List.lookup_nil]

theorem write (h : Alike console page) (text : String) :
    ∃ console' page', writeText text console = .ok () console' ∧
      writeText text page = .ok () page' ∧ Alike console' page' := by
  refine ⟨{ console with output := console.output ++ text },
    { page with written := page.written ++ text }, ?_, rfl, h.ready, h.bare, ?_⟩
  · obtain ⟨output, full⟩ := console
    obtain rfl : full = false := h.ready
    rfl
  · rw [h.text]

/-- There is nothing to change, and the page says so in the same words as the console. -/
theorem change_eq_error (h : Alike console page) (id : ElementId)
    (f : PageElement α → PageElement α) :
    MemoryPage.change id f page = .error (.unknownElement id.name) page := by
  rw [MemoryPage.change_apply, h.get?_eq_none]
  rfl

theorem findElement_eq_none (h : Alike console page) (id : ElementId) :
    findElement page id = none := by
  have hf : findElement page id = if (page.get? id).isSome then some id else none := rfl
  rw [hf, h.get?_eq_none]
  rfl

/-- One call gets the same reply from both, and they stay alike. -/
theorem perform (h : Alike console page) (call : Call α) (s : σ) :
    ∃ reply console' page' t, call.perform console s = (reply, console', t) ∧
      call.perform page s = (reply, page', t) ∧ Alike console' page' := by
  have hwrite : ∀ text, ∃ reply console' page' t,
      Page.reply (writeText text) console s = (reply, console', t) ∧
      Page.reply (writeText text) page s = (reply, page', t) ∧ Alike console' page' := by
    intro text
    obtain ⟨console', page', hc, hp, h'⟩ := h.write text
    refine ⟨.outcome (.ok ()), console', page', s, ?_, ?_, h'⟩
    · rw [Page.reply, hc]
    · rw [Page.reply, hp]
  have hchange : ∀ id f, Page.reply (MemoryPage.change id f) page s =
      (.outcome (.error (.unknownElement id.name)), page, s) := by
    intro id f
    rw [Page.reply, h.change_eq_error]
  cases call with
  | writeText text => exact hwrite text
  | showValue heap v => exact hwrite _
  | findElement id =>
    refine ⟨.found none, console, page, s, rfl, ?_, h⟩
    rw [Call.perform, h.findElement_eq_none]
  | findElementInto id cell =>
    have hvalue : elementValue page id = elementValue console id := by
      rw [elementValue, h.findElement_eq_none]
      rfl
    refine ⟨_, console, page, _, rfl, ?_, h⟩
    rw [Call.perform, findElementInto, hvalue]
    rfl
  | appendContent id text => exact ⟨_, console, page, s, rfl, hchange id _, h⟩
  | clearContent id => exact ⟨_, console, page, s, rfl, hchange id _, h⟩
  | bindClick id action => exact ⟨_, console, page, s, rfl, hchange id _, h⟩

end Alike

/-- After any turns both have the same text, and the client has seen no difference. -/
theorem exchange_alike (turns : List (Turn α σ)) {x : Exchange Console α σ}
    {y : Exchange MemoryPage α σ} (hpage : Alike x.page y.page) (hstate : x.state = y.state)
    (hreplies : x.replies = y.replies) :
    Alike (turns.foldl Exchange.next x).page (turns.foldl Exchange.next y).page ∧
      (turns.foldl Exchange.next x).state = (turns.foldl Exchange.next y).state ∧
      (turns.foldl Exchange.next x).replies = (turns.foldl Exchange.next y).replies := by
  induction turns generalizing x y with
  | nil => exact ⟨hpage, hstate, hreplies⟩
  | cons turn turns ih =>
    -- The same replies and the same state make the client take the same turn.
    obtain ⟨reply, console, page, t, hx, hy, halike⟩ :=
      hpage.perform (turn x.replies x.state).2 (turn x.replies x.state).1
    have hnextx : x.next turn = ⟨console, t, x.replies ++ [reply]⟩ := by
      simp only [Exchange.next, hx]
    have hnexty : y.next turn = ⟨page, t, x.replies ++ [reply]⟩ := by
      simp only [Exchange.next, ← hstate, ← hreplies, hy]
    rw [List.foldl_cons, List.foldl_cons, hnextx, hnexty]
    exact ih halike rfl rfl

/--
A new console and a new page in memory, with the same client, give the same replies, leave the
same in the client's state and so in its cells, and have the same text, after every turn.
-/
theorem console_indistinguishable (turns : List (Turn α σ)) (s : σ) (n : Nat) :
    let onConsole := (turns.take n).foldl Exchange.next { page := ({} : Console α), state := s }
    let inMemory := (turns.take n).foldl Exchange.next { page := ({} : MemoryPage α), state := s }
    onConsole.replies = inMemory.replies ∧
      onConsole.state = inMemory.state ∧
      onConsole.page.output = inMemory.page.written := by
  have hstart : Alike ({} : Console α) ({} : MemoryPage α) := ⟨rfl, rfl, rfl⟩
  obtain ⟨hpage, hstate, hreplies⟩ := exchange_alike (turns.take n)
    (x := { page := {}, state := s }) (y := { page := {}, state := s }) hstart rfl rfl
  exact ⟨hreplies, hstate, hpage.text⟩

end PageScript
