import PageScript.Heap.Equality
import PageScript.Prompt.Basic

/-!
# The store of a script

All that the handles of a script refer to: shared lists and cells, prompts, and the counters
that single acts keep for themselves.
-/

namespace PageScript.Script

structure PromptId where
  index : Nat
deriving DecidableEq, Repr

structure CounterId where
  index : Nat
deriving DecidableEq, Repr

/-- What handles refer to. -/
structure Store where
  heap : Heap := {}
  cells : Cells := {}
  prompts : Array Scripted := #[]
  counters : Array Nat := #[]

namespace Store

def makeList (s : Store) (items : List Value) : ListId × Store :=
  let (l, heap) := s.heap.make items
  (l, { s with heap })

def makeCell (s : Store) (value : Option Value) : CellId × Store :=
  let (c, cells) := s.cells.make value
  (c, { s with cells })

def makePrompt (s : Store) (answers : List String) : PromptId × Store :=
  (⟨s.prompts.size⟩, { s with prompts := s.prompts.push { answers } })

def makeCounter (s : Store) : CounterId × Store :=
  (⟨s.counters.size⟩, { s with counters := s.counters.push 0 })

/-- A prompt. A handle from elsewhere has no answers. -/
def prompt (s : Store) (p : PromptId) : Scripted := s.prompts[p.index]?.getD {}

def setPrompt (s : Store) (p : PromptId) (prompt : Scripted) : Store :=
  { s with prompts := s.prompts.modify p.index fun _ => prompt }

def ask (s : Store) (p : PromptId) (message : String) : String × Store :=
  let (answer, prompt) := Scripted.ask message (s.prompt p)
  (answer, s.setPrompt p prompt)

def readInto (s : Store) (p : PromptId) (cell : CellId) (message : String) : Store :=
  let (_, prompt, cells) := Prompt.readInto cell message (s.prompt p, s.cells)
  { s.setPrompt p prompt with cells }

/-- Counts once more, and gives the count. -/
def count (s : Store) (c : CounterId) : Nat × Store :=
  let n := s.counters[c.index]?.getD 0 + 1
  (n, { s with counters := s.counters.modify c.index fun _ => n })

theorem prompt_setPrompt (s : Store) {p : PromptId} (prompt : Scripted)
    (hp : p.index < s.prompts.size) : (s.setPrompt p prompt).prompt p = prompt := by
  simp [setPrompt, Store.prompt, Array.getElem_modify, hp]

theorem prompt_setPrompt_ne (s : Store) {p q : PromptId} (prompt : Scripted) (hq : q ≠ p) :
    (s.setPrompt p prompt).prompt q = s.prompt q := by
  have hi : ¬ p.index = q.index := fun e => hq (by cases p; cases q; simp_all)
  simp [setPrompt, Store.prompt, Array.getElem?_modify, hi]

end Store

end PageScript.Script
