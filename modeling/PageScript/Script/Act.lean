import PageScript.Number.Analytic
import PageScript.Script.Store

/-!
# Acts and actions

An act is one effect on the store, and an action is a list of acts that ends at the first
fault. Acts hold handles and values, not names, so an action keeps working on the same lists and
cells when their names are given to others.
-/

namespace PageScript.Script

/-- One effect on the store. -/
inductive Act where
  | append (l : ListId) (v : Value)
  | appendCell (l : ListId) (c : CellId)
  | setAt (l : ListId) (index : Nat) (v : Value)
  | clear (l : ListId)
  | set (c : CellId) (v : Value)
  | unset (c : CellId)
  | add (c : CellId) (amount : Binary64)
  /-- Appends the power of the base that the number in the cell names. -/
  | power (l : ListId) (c : CellId) (base : Binary64)
  | read (p : PromptId) (c : CellId) (message : String)
  | requireNumber (c : CellId)
  | fail (fault : Fault)
  /-- Fails from the execution with a number on, counted from one. -/
  | failFrom (counter : CounterId) (execution : Nat) (fault : Fault)

/-- Acts in order. -/
abbrev Action := List Act

namespace Act

/-- The number in a cell. An unset cell counts as null. -/
def numberIn (c : CellId) : Effect Store Binary64 := do
  Effect.ofExcept ((← get).cells.value c).asNumber

def onHeap (f : Heap → Heap) : Effect Store Unit := modify fun s => { s with heap := f s.heap }

def onCells (f : Cells → Cells) : Effect Store Unit := modify fun s => { s with cells := f s.cells }

def run : Act → Effect Store Unit
  | .append l v => onHeap (·.append l v)
  | .appendCell l c => modify fun s => { s with heap := s.heap.append l (s.cells.value c) }
  | .setAt l index v => do
    let heap ← Effect.ofExcept ((← get).heap.setAt l index v)
    onHeap fun _ => heap
  | .clear l => onHeap (·.clear l)
  | .set c v => onCells (·.set c v)
  | .unset c => onCells (·.unset c)
  | .add c amount => do
    let n ← numberIn c
    onCells (·.set c (.number (n + amount)))
  | .power l c base => do
    let n ← numberIn c
    onHeap (·.append l (.number (NamedPower.call ⟨base⟩ n.text)))
  | .read p c message => modify fun s => s.readInto p c message
  | .requireNumber c => do
    let n ← numberIn c
    if n.isNaN then throw (.wrongType "not a number")
  | .fail fault => throw fault
  | .failFrom counter execution fault => do
    let n ← modifyGet fun s => s.count counter
    if execution ≤ n then throw fault

end Act

/-- The effect of an action: its acts in order, up to the first fault. -/
def Action.run (action : Action) : Effect Store Unit := action.forM Act.run

end PageScript.Script
