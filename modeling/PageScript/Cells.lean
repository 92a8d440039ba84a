import PageScript.Heap.Texts

/-!
# Shared cells

A cell holds a value or is unset. Cells are shared by handle.
-/

namespace PageScript

/-- The handle of a shared cell. -/
structure CellId where
  index : Nat
deriving DecidableEq, Repr

/-- The shared cells, by the index of their handle. -/
structure Cells where
  slots : Array (Option Value) := #[]

namespace Cells

/-- The name of the field that a cell takes its value from. -/
def valueField : String := "arvo"

/-- What a cell holds. A handle from elsewhere holds nothing. -/
def get? (cs : Cells) (c : CellId) : Option Value := (cs.slots[c.index]?).join

def make (cs : Cells) (value : Option Value) : CellId × Cells :=
  (⟨cs.slots.size⟩, ⟨cs.slots.push value⟩)

/-- Makes a cell from the first field with the name of a value, or an unset one. -/
def ofFields (cs : Cells) (fields : List (String × Value)) : CellId × Cells :=
  cs.make ((fields.find? fun field => field.1 == valueField).map Prod.snd)

def put (cs : Cells) (c : CellId) (value : Option Value) : Cells :=
  ⟨cs.slots.modify c.index fun _ => value⟩

def set (cs : Cells) (c : CellId) (v : Value) : Cells := cs.put c (some v)

def unset (cs : Cells) (c : CellId) : Cells := cs.put c none

/-- What a cell held, and the cells with that one unset. -/
def take (cs : Cells) (c : CellId) : Option Value × Cells := (cs.get? c, cs.unset c)

/-- What a cell holds, null if it is unset. -/
def value (cs : Cells) (c : CellId) : Value := (cs.get? c).getD .null

/-- The text of a cell for inspection. -/
def inspect (cs : Cells) (h : Heap) (c : CellId) : String :=
  match cs.get? c with
  | some v => "Muuttuja(" ++ h.inspect v ++ ")"
  | none => "Muuttuja(<unset>)"

def count (cs : Cells) : Nat := cs.slots.size

@[simp]
theorem get?_make (cs : Cells) (value : Option Value) :
    (cs.make value).2.get? (cs.make value).1 = value := by
  simp [make, get?]

theorem get?_make_of_lt (cs : Cells) (value : Option Value) {c : CellId}
    (hc : c.index < cs.count) : (cs.make value).2.get? c = cs.get? c := by
  simp only [count] at hc
  simp [make, get?, Array.getElem?_push, Nat.ne_of_lt hc]

theorem get?_put (cs : Cells) {c : CellId} (value : Option Value) (hc : c.index < cs.count) :
    (cs.put c value).get? c = value := by
  simp only [count] at hc
  simp [put, get?, Array.getElem_modify, hc]

theorem get?_put_ne (cs : Cells) {c d : CellId} (value : Option Value) (hd : d ≠ c) :
    (cs.put c value).get? d = cs.get? d := by
  have hi : ¬ c.index = d.index := fun e => hd (by cases c; cases d; simp_all)
  simp [put, get?, Array.getElem?_modify, hi]

end Cells

end PageScript
