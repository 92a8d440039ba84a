import PageScript.Cells
import PageScript.Heap.Texts

/-!
# Pages

A page takes text and may have elements with contents and actions bound to clicks. What the
actions are is left open. A console takes text and has no elements. On a full device every text but
the empty one is refused and lost.
-/

namespace PageScript

/-- The operations of a page with actions of some type. -/
class Page (π : Type → Type) where
  writeText {α : Type} : String → Effect (π α) Unit
  findElement {α : Type} : π α → ElementId → Option ElementId
  appendContent {α : Type} : ElementId → String → Effect (π α) Unit
  clearContent {α : Type} : ElementId → Effect (π α) Unit
  /-- Earlier bindings stay in place. -/
  bindClick {α : Type} : ElementId → α → Effect (π α) Unit

namespace Page

variable {π : Type → Type} [Page π] {α : Type}

/-- Writes the text of a value on a line. -/
def showValue (h : Heap) (v : Value) : Effect (π α) Unit := writeText (h.display v ++ "\n")

/-- The element with an identifier as a value, null if there is none. -/
def elementValue (page : π α) (id : ElementId) : Value :=
  match findElement page id with
  | some found => .element found
  | none => .null

/-- Stores the element with an identifier, or null, in a cell. -/
def findElementInto (page : π α) (id : ElementId) (cell : CellId) (cells : Cells) : Cells :=
  cells.set cell (elementValue page id)

end Page

/-- An output device. Actions have nothing to be bound to. -/
structure Console (α : Type) where
  output : String := ""
  full : Bool := false

namespace Console

variable {α : Type}

def write (text : String) : Effect (Console α) Unit := do
  let console ← get
  if console.full && !text.isEmpty then
    throw (.output "No space left on device (os error 28)")
  else set ({ console with output := console.output ++ text } : Console α)

instance : Page Console where
  writeText := write
  findElement _ _ := none
  appendContent id _ := throw (.unknownElement id.name)
  clearContent id := throw (.unknownElement id.name)
  bindClick id _ := throw (.unknownElement id.name)

end Console

end PageScript
