import PageScript.Heap.Walk
import PageScript.Number.Style
import PageScript.Text

/-!
# Texts of values

A value is written to a sink, piece by piece. The sink may refuse a piece; then nothing more is
written, and the walk ends there with all its marks taken off.

For readers, a list is its elements' texts with commas between them, without brackets. A null
element and a list that is already being written leave an empty place. For inspection, the
constructor of every value is written, texts are quoted and lists are bracketed. A list that is
already being written shows an ellipsis for its elements.
-/

namespace PageScript

/--
What takes pieces of text into a state, or refuses them with an error. The state may change in
either case, and how a piece is taken, at once or in parts, is the sink's own affair.
-/
abbrev Sink (ε σ : Type) := String → σ → Except ε Unit × σ

/-- A text that takes every piece. -/
def Sink.buffer : Sink Empty String := fun piece text => (.ok (), text ++ piece)

/-- Walks that write to a sink with states `σ`, up to the first piece that is refused. -/
abbrev Writing (ε σ : Type) := ExceptT ε (StateT σ Walk)

namespace Writing

variable {ε σ α : Type}

def put (sink : Sink ε σ) (piece : String) : Writing ε σ Unit :=
  ExceptT.mk fun s => pure (sink piece s)

/--
Writes under a mark, which is taken off at the end, also if a piece was refused. If the mark is set
already, `again` is written instead.
-/
def once (mark : Mark) (again writing : Writing ε σ Unit) : Writing ε σ Unit :=
  ExceptT.mk fun s => do
    match ← Walk.once mark none (some <$> writing.run s) with
    | some result => return result
    | none => again.run s

/-- Writes everything in a list, with a separator between. -/
def separated (sink : Sink ε σ) (separator : String) (write : α → Writing ε σ Unit) :
    List α → Writing ε σ Unit
  | [] => pure ()
  | x :: xs => do
    write x
    xs.forM fun y => do
      put sink separator
      write y

/-- Writes a name and something in parentheses behind it. -/
def wrapped (sink : Sink ε σ) (name : String) (inside : Writing ε σ Unit) : Writing ε σ Unit := do
  put sink name
  put sink "("
  inside
  put sink ")"

/-- The end of a walk whose depth is used up. -/
def outOfDepth : Writing ε σ Unit := ExceptT.mk fun _ => failure

/-- What is written to an empty text. -/
def text (writing : Writing Empty String Unit) : Walk String := do
  let (_, text) ← writing.run ""
  return text

end Writing

namespace Heap

open Writing (put once separated wrapped outOfDepth)

variable {ε σ : Type}

/-- Writes a value for readers, by a walk of limited depth. -/
def displayTo (h : Heap) (sink : Sink ε σ) : Nat → Value → Writing ε σ Unit
  | _, .number x => put sink x.text
  | _, .text s => put sink s
  | _, .boolean b => put sink (if b then "true" else "false")
  | _, .element id => do
    put sink "<"
    put sink id.name
    put sink ">"
  | _, .null => put sink "null"
  | 0, .list _ => outOfDepth
  | depth + 1, .list l =>
    once (.displaying l) (pure ()) <|
      separated sink "," (fun v => if v.isNull then pure () else displayTo h sink depth v)
        (h.elements l)

/-- The text of a value for readers, by a walk of limited depth. -/
def displayWalk (h : Heap) (depth : Nat) (v : Value) : Walk String :=
  (h.displayTo .buffer depth v).text

def display (h : Heap) (v : Value) : String :=
  (h.displayWalk (h.listCount + 1) v).answer?.getD ""

/-- Writes a list for inspection, with its elements as they are given. -/
def inspectListTo (h : Heap) (sink : Sink ε σ) (element : Value → Writing ε σ Unit) (l : ListId) :
    Writing ε σ Unit :=
  once (.inspecting l) (put sink "Lista([...])") do
    put sink "Lista("
    put sink "["
    separated sink ", " element (h.elements l)
    put sink "]"
    put sink ")"

variable [CharacterSet]

/-- Writes a value for inspection, by a walk of limited depth. -/
def inspectTo (h : Heap) (sink : Sink ε σ) : Nat → Value → Writing ε σ Unit
  | _, .number x => wrapped sink "Number" (put sink x.inspect)
  | _, .text s => wrapped sink "Text" (put sink (quote s))
  | _, .boolean b => wrapped sink "Boolean" (put sink (if b then "true" else "false"))
  | _, .element id => wrapped sink "Element" (wrapped sink "ElementId" (put sink (quote id.name)))
  | _, .null => put sink "Null"
  | 0, .list _ => outOfDepth
  | depth + 1, .list l =>
    wrapped sink "List" (inspectListTo h sink (fun v => inspectTo h sink depth v) l)

/-- The text of a value for inspection, by a walk of limited depth. -/
def inspectWalk (h : Heap) (depth : Nat) (v : Value) : Walk String :=
  (h.inspectTo .buffer depth v).text

def inspect (h : Heap) (v : Value) : String :=
  (h.inspectWalk (h.listCount + 1) v).answer?.getD ""

/-- The text of a list for inspection, by a walk of limited depth. -/
def inspectListWalk (h : Heap) (depth : Nat) (l : ListId) : Walk String :=
  (h.inspectListTo .buffer (h.inspectTo .buffer depth) l).text

def inspectList (h : Heap) (l : ListId) : String :=
  (h.inspectListWalk h.listCount l).answer?.getD ""

end Heap

end PageScript
